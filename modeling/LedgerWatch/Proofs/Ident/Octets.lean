/-
  LedgerWatch.Proofs.Ident.Octets — the texts of public keys, addresses and block ids.

  Each of the three is a byte string of a fixed size, so what is read and why anything
  else is refused is said once, for any size (`readsHex`). A text in another case is a
  text of the same bytes, and nothing else is: the written one has lower case only.
-/

import LedgerWatch.Proofs.Ident.Written

namespace LedgerWatch

open LedgerWatch.Text

/-- How strings of `n` bytes are read and written. -/
structure ReadsHex {α : Type} (n : Nat) (octets : α → Octets n) (text : α → String)
    (parse : String → Except IdError α) : Prop where
  accepts : ∀ s a, parse s = .ok a ↔ Hex.Spells s.toList (octets a).toList
  accepted_iff : ∀ s, (∃ a, parse s = .ok a) ↔ s.toList.length = 2 * n ∧ ∀ c ∈ s.toList, Hex.IsDigit c
  refuses : ∀ s e, parse s = .error e ↔ ∃ reason, e = .invalidHex reason ∧ Hex.Refusal n s reason
  text_lower : ∀ a, ∀ c ∈ (text a).toList, c ∈ Hex.digits
  reads_text : ∀ a, parse (text a) = .ok a
  text_of_parse : ∀ s a, parse s = .ok a → text a = s.toLower
  same_iff : ∀ s t a b, parse s = .ok a → parse t = .ok b → (a = b ↔ s.toLower = t.toLower)

/-! ## Any size -/

namespace Octets

variable {n : Nat} {s : String}

theorem parse_eq_ok_iff {o : Octets n} : Octets.parse s = .ok o ↔ Hex.Spells s.toList o.toList := by
  rw [← Hex.decodeOctets_eq_ok_iff, Octets.parse]
  cases Hex.decodeOctets n s with
  | error reason =>
    show Except.error (IdError.invalidHex reason) = .ok o ↔ _
    simp only [reduceCtorEq]
  | ok o' =>
    show Except.ok o' = .ok o ↔ _
    simp only [Except.ok.injEq]

theorem parse_eq_error_iff {e : IdError} :
    (Octets.parse s : Except IdError (Octets n)) = .error e ↔
      ∃ reason, e = .invalidHex reason ∧ Hex.Refusal n s reason := by
  simp only [← Hex.decodeOctets_eq_error_iff, Octets.parse]
  cases Hex.decodeOctets n s with
  | error reason =>
    show Except.error (IdError.invalidHex reason) = .error e ↔ _
    simp [eq_comm]
  | ok o =>
    show Except.ok o = .error e ↔ _
    simp

theorem text_of_spells {o : Octets n} (h : Hex.Spells s.toList o.toList) : o.text = s.toLower := by
  refine String.toList_inj.mp ?_
  rw [Octets.text, Hex.encode_of_spells h, String.toList_ofList]
  exact String.toList_map.symm

theorem exists_spells_iff :
    (∃ o : Octets n, Hex.Spells s.toList o.toList) ↔ s.toList.length = 2 * n ∧ ∀ c ∈ s.toList, Hex.IsDigit c := by
  constructor
  · rintro ⟨o, h⟩
    exact ⟨by rw [h.length, o.length_eq], h.isDigit⟩
  · rintro ⟨hlength, hdigits⟩
    obtain ⟨bs, h⟩ := Hex.spells_of_digits hlength hdigits
    have hn : bs.length = n := by have := h.length; omega
    exact ⟨⟨bs, hn⟩, h⟩

theorem text_lower (o : Octets n) : ∀ c ∈ o.text.toList, c ∈ Hex.digits := by
  intro c hc
  rw [Octets.text, String.toList_ofList] at hc
  obtain ⟨b, -, hc⟩ := List.mem_flatMap.mp hc
  have hb := b.toNat_lt
  rcases List.mem_cons.mp hc with rfl | hc
  · exact List.mem_of_getElem? (Hex.getElem?_digits _ (by omega))
  · rw [List.mem_singleton.mp hc]
    exact List.mem_of_getElem? (Hex.getElem?_digits _ (by omega))

end Octets

theorem readsHex {α : Type} {n : Nat} {make : Octets n → α} {octets : α → Octets n} {text : α → String}
    {parse : String → Except IdError α} (hmake : ∀ a, make (octets a) = a) (hoctets : ∀ o, octets (make o) = o)
    (htext : ∀ a, text a = (octets a).text) (hparse : ∀ s, parse s = (Octets.parse s).map make) :
    ReadsHex n octets text parse := by
  have hok : ∀ s a, parse s = .ok a ↔ Octets.parse s = .ok (octets a) := by
    intro s a
    rw [hparse]
    cases Octets.parse s with
    | error e => exact ⟨nofun, nofun⟩
    | ok o =>
      show Except.ok (make o) = .ok a ↔ _
      rw [Except.ok.injEq, Except.ok.injEq]
      exact ⟨fun h => h ▸ (hoctets o).symm, fun h => h ▸ hmake a⟩
  have herror : ∀ s e, parse s = .error e ↔ (Octets.parse s : Except IdError (Octets n)) = .error e := by
    intro s e
    rw [hparse]
    cases Octets.parse s with
    | error e' => simp [Except.map]
    | ok o => exact ⟨nofun, nofun⟩
  have hlower : ∀ s a, parse s = .ok a → text a = s.toLower := fun s a h =>
    (htext a).trans (Octets.text_of_spells (Octets.parse_eq_ok_iff.mp ((hok s a).mp h)))
  have hreads : ∀ a, parse (text a) = .ok a := fun a => by rw [hok, htext, Octets.parse_text]
  refine ⟨fun s a => ?_, fun s => ?_, fun s e => ?_, fun a => ?_, hreads, hlower, fun s t a b ha hb => ?_⟩
  · rw [hok, Octets.parse_eq_ok_iff]
  · rw [← Octets.exists_spells_iff]
    constructor
    · rintro ⟨a, h⟩
      exact ⟨octets a, Octets.parse_eq_ok_iff.mp ((hok s a).mp h)⟩
    · rintro ⟨o, h⟩
      refine ⟨make o, (hok s _).mpr ?_⟩
      rw [hoctets, Octets.parse_eq_ok_iff]
      exact h
  · rw [herror, Octets.parse_eq_error_iff]
  · rw [htext]
    exact (octets a).text_lower
  · rw [← hlower s a ha, ← hlower t b hb]
    exact ⟨congrArg text, inj_of_reads hreads⟩

/-! ## Keys, addresses and block ids -/

/-- Each is read from the hexadecimal texts of its size, of either case, and written in lower case; of all other texts
it is told what is wrong with them first. -/
theorem hex_texts_exact :
    ReadsHex 33 PublicKey.octets PublicKey.text PublicKey.parse ∧
      ReadsHex 20 Address.octets Address.text Address.parse ∧
      ReadsHex 20 BlockId.octets BlockId.text BlockId.parse :=
  ⟨readsHex (fun _ => rfl) (fun _ => rfl) (fun _ => rfl) fun _ => rfl,
    readsHex (fun _ => rfl) (fun _ => rfl) (fun _ => rfl) fun _ => rfl,
    readsHex (fun _ => rfl) (fun _ => rfl) (fun _ => rfl) fun _ => rfl⟩

/-- Of a character of two bytes the first is told, with its index. -/
example : (Hex.decodeOctets 2 "0é9" : Except Hex.Error (Octets 2)) = .error (.notADigit 0xc3 1) := rfl

end LedgerWatch
