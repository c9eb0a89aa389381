/-
  LedgerWatch.Proofs.Json.Written — the text of a plain document reads back as it.

  Each reading function takes from a text what the writer put there and leaves what
  stands behind: a string whatever follows (`readString_written`), a number what begins
  with none of a number's characters (`readNumber_written`), a value the end of the text
  or of what it stands in (`readValue_written`). The induction is on the document; the
  fuel is measured by the text, of which every reading function takes at least one
  character for each two calls.

  - `read_write`: so the whole text of a plain document reads back as the document.
-/

import Mathlib.Tactic.SplitIfs
import LedgerWatch.Json.Reader
import LedgerWatch.Json.Writer
import LedgerWatch.Proofs.Json.Plain
import LedgerWatch.Proofs.Text.Written

namespace LedgerWatch.Json

open LedgerWatch.Text

/-! ## Strings -/

theorem hexDigit?_digit : ∀ n < 16, hexDigit? (Hex.digit n) = some n := by decide

theorem hex4?_written {n : Nat} (h : n < 32) :
    hex4? '0' '0' (Hex.digit (n / 16)) (Hex.digit (n % 16)) = some n := by
  have hzero : hexDigit? '0' = some 0 := by decide
  simp only [hex4?, hzero, hexDigit?_digit (n / 16) (by omega), hexDigit?_digit (n % 16) (by omega),
    Option.bind_eq_bind, Option.bind_some, Option.pure_def, Option.some.injEq]
  omega

theorem readString_plain {c : Char} (hq : c ≠ '"') (hb : c ≠ '\\') (hn : ¬c.toNat < 32) (cs : List Char) :
    readString none (c :: cs) = (readString none cs).map (·.push c) := by
  rw [readString.eq_def]
  -- every pattern but the last begins with a quote or a backslash
  split
  · contradiction
  · rename_i h
    exact absurd (List.cons.inj h).1 hq
  · rename_i h
    exact absurd (List.cons.inj h).1 hb
  · rename_i h
    exact absurd (List.cons.inj h).1 hb
  · rename_i h
    obtain ⟨rfl, rfl⟩ := List.cons.inj h
    rw [if_neg hn]
    rfl

theorem readString_short {c e : Char} (hu : c ≠ 'u') (he : unescape? c = some e) (cs : List Char) :
    readString none ('\\' :: c :: cs) = (readString none cs).map (·.push e) := by
  rw [readString.eq_def]
  split
  · contradiction
  · rename_i h
    exact absurd (List.cons.inj h).1 (by decide)
  · rename_i h
    exact absurd (List.cons.inj (List.cons.inj h).2).1 hu
  · rename_i h
    obtain ⟨rfl, rfl⟩ := List.cons.inj (List.cons.inj h).2
    rw [he]
    rfl
  · -- the last pattern is for what no escape begins
    rename_i hnot h
    obtain ⟨hslash, hrest⟩ := List.cons.inj h
    exact absurd hrest.symm (hnot c cs hslash.symm)

theorem readString_long {n : Nat} (h : n < 32) (cs : List Char) :
    readString none (['\\', 'u', '0', '0', Hex.digit (n / 16), Hex.digit (n % 16)] ++ cs)
      = (readString none cs).map (·.push (Char.ofNat n)) := by
  have hlow : ¬(0xdc00 ≤ n ∧ n < 0xe000) := by omega
  have hhigh : ¬(0xd800 ≤ n ∧ n < 0xdc00) := by omega
  simp only [List.cons_append, List.nil_append, readString, hex4?_written h, if_neg hlow, if_neg hhigh]
  rfl

/-- A character is escaped by a letter that stands for it, or by its number, or stands as it is. -/
theorem escape_cases (c : Char) :
    (∃ e, e ≠ 'u' ∧ unescape? e = some c ∧ escape c = ['\\', e]) ∨
    (c.toNat < 32 ∧ escape c = ['\\', 'u', '0', '0', Hex.digit (c.toNat / 16), Hex.digit (c.toNat % 16)]) ∨
    (c ≠ '"' ∧ c ≠ '\\' ∧ ¬c.toNat < 32 ∧ escape c = [c]) := by
  unfold escape
  split_ifs with hquote hslash hn hr ht hb hf hcontrol
  · exact .inl ⟨'"', by decide, by rw [hquote]; rfl, rfl⟩
  · exact .inl ⟨'\\', by decide, by rw [hslash]; rfl, rfl⟩
  · exact .inl ⟨'n', by decide, by rw [hn]; rfl, rfl⟩
  · exact .inl ⟨'r', by decide, by rw [hr]; rfl, rfl⟩
  · exact .inl ⟨'t', by decide, by rw [ht]; rfl, rfl⟩
  · exact .inl ⟨'b', by decide, by rw [hb]; rfl, rfl⟩
  · exact .inl ⟨'f', by decide, by rw [hf]; rfl, rfl⟩
  · exact .inr (.inl ⟨hcontrol, rfl⟩)
  · exact .inr (.inr ⟨hquote, hslash, hcontrol, rfl⟩)

/-- A character reads back from its escape. -/
theorem readString_escape (c : Char) (cs : List Char) :
    readString none (escape c ++ cs) = (readString none cs).map (·.push c) := by
  obtain ⟨e, hu, he, hc⟩ | ⟨hcontrol, hc⟩ | ⟨hquote, hslash, hcontrol, hc⟩ := escape_cases c
  · rw [hc]
    exact readString_short hu he cs
  · rw [hc, readString_long hcontrol, Char.ofNat_toNat]
  · rw [hc]
    exact readString_plain hquote hslash hcontrol cs

theorem readString_written (cs rest : List Char) :
    readString none (cs.flatMap escape ++ '"' :: rest) = some (some cs, rest) := by
  induction cs with
  | nil => simp [readString]
  | cons c cs ih =>
    rw [List.flatMap_cons, List.append_assoc, readString_escape, ih]
    rfl

/-! ## Numbers -/

/-- What may follow a value: the end, or what separates or ends the values around it. -/
def Delimited (rest : List Char) : Prop := ∀ c ∈ rest.head?, c = ',' ∨ c = ']' ∨ c = '\x7d'

theorem Delimited.not_digit {rest : List Char} (h : Delimited rest) : ∀ c ∈ rest.head?, c.isDigit = false := by
  intro c hc
  rcases h c hc with rfl | rfl | rfl <;> decide

theorem readFraction_delimited {rest : List Char} (h : Delimited rest) : readFraction rest = some ([], rest) := by
  unfold readFraction
  split
  · exact absurd (h '.' rfl) (by decide)
  · rfl

theorem readExponent_delimited {rest : List Char} (h : Delimited rest) : readExponent rest = some (none, rest) := by
  unfold readExponent
  split
  · rfl
  · rename_i c rest
    have hc : ¬(c = 'e' ∨ c = 'E') := by
      rcases h c rfl with rfl | rfl | rfl <;> decide
    rw [if_neg hc]

theorem readUnsigned_write (negative : Bool) (n : Nat) {rest : List Char} (h : Delimited rest) :
    readUnsigned negative (Numeral.write n ++ rest) = some (ofInteger negative (Numeral.write n), rest) := by
  obtain ⟨htake, hdrop⟩ := Numeral.takeWhile_isDigit (fun c hc => Numeral.isDigit_of_mem_write (n := n) hc) h.not_digit
  unfold readUnsigned
  simp only [htake, hdrop]
  split
  · exact absurd ‹_› (Numeral.write_ne_nil n)
  · -- only zero begins with a zero, and it has no more digits
    rename_i heq
    rcases Nat.eq_zero_or_pos n with rfl | hpos
    · simp [Numeral.write_zero] at heq
    · exact absurd (by rw [heq]; rfl) (Numeral.head?_write hpos)
  · simp [readFraction_delimited h, readExponent_delimited h]

theorem ofInteger_write (negative : Bool) (n : Nat) (hn : negative = true → n ≠ 0)
    (h : minInt ≤ (if negative then -(n : Int) else n) ∧ (if negative then -(n : Int) else n) ≤ maxInt) :
    ofInteger negative (Numeral.write n) = .int (if negative then -n else n) := by
  have hzero : ¬(negative = true ∧ (if negative then -(n : Int) else n) = 0) := by
    rintro ⟨rfl, h0⟩
    have := hn rfl
    simp at h0
    omega
  simp only [ofInteger, Numeral.readFrom_write, Option.getD_some]
  rw [if_pos ⟨h.1, h.2, hzero⟩]

/-- A number begins with its sign or a digit. -/
def StartsNumber (c : Char) : Prop := c = '-' ∨ c.isDigit = true

theorem write_head (n : Nat) : ∃ c cs, Numeral.write n = c :: cs ∧ c.isDigit = true := by
  obtain ⟨c, cs, hcs⟩ := List.exists_cons_of_ne_nil (Numeral.write_ne_nil n)
  exact ⟨c, cs, hcs, Numeral.isDigit_of_mem_write (hcs ▸ List.mem_cons_self)⟩

theorem writeInt_head (n : Int) : ∃ c cs, writeInt n = c :: cs ∧ StartsNumber c := by
  cases n with
  | ofNat n =>
    obtain ⟨c, cs, hcs, hc⟩ := write_head n
    exact ⟨c, cs, hcs, .inr hc⟩
  | negSucc n => exact ⟨'-', _, rfl, .inl rfl⟩

/-- An integer of 64 bits reads back. -/
theorem readNumber_written {n : Int} (hmin : minInt ≤ n) (hmax : n ≤ maxInt) {rest : List Char} (h : Delimited rest) :
    readNumber (writeInt n ++ rest) = some (.int n, rest) := by
  cases n with
  | ofNat n =>
    have hint := ofInteger_write false n (by simp) ⟨hmin, hmax⟩
    have hsign : ∀ cs, Numeral.write n ++ rest ≠ '-' :: cs := fun cs hcs => by
      obtain ⟨d, ds, hds, hd⟩ := write_head n
      rw [hds] at hcs
      rw [(List.cons.inj hcs).1] at hd
      contradiction
    rw [writeInt, readNumber, readUnsigned_write false n h, hint]
    · rfl
    · exact hsign
  | negSucc n =>
    have hint := ofInteger_write true (n + 1) (by omega) ⟨hmin, hmax⟩
    rw [writeInt, List.cons_append, readNumber, readUnsigned_write true (n + 1) h, hint]
    rfl

/-! ## Values -/

theorem StartsNumber.ne {c d : Char} (h : StartsNumber c) (hsign : d ≠ '-') (hdigit : d.isDigit = false) : c ≠ d := by
  rintro rfl
  rcases h with rfl | hc
  · exact hsign rfl
  · rw [hdigit] at hc
    contradiction

theorem skipBlanks_cons {c : Char} (h : isBlank c = false) (cs : List Char) : skipBlanks (c :: cs) = c :: cs := by
  rw [skipBlanks, List.dropWhile_cons_of_neg (by rw [h]; decide)]

theorem StartsNumber.isBlank {c : Char} (h : StartsNumber c) : Json.isBlank c = false := by
  have hblank : ∀ d, d ≠ '-' → d.isDigit = false → decide (c = d) = false :=
    fun d hsign hdigit => decide_eq_false (h.ne hsign hdigit)
  rw [Json.isBlank, hblank ' ' (by decide) (by decide), hblank '\n' (by decide) (by decide),
    hblank '\t' (by decide) (by decide), hblank '\r' (by decide) (by decide)]
  rfl

theorem readValue_number {c : Char} (h : StartsNumber c) (fuel : Nat) (cs : List Char) :
    readValue (fuel + 1) (c :: cs) = readNumber (c :: cs) := by
  unfold readValue
  rw [skipBlanks_cons h.isBlank]
  -- no other value begins like a number
  split
  · exact absurd (List.cons.inj ‹_›).1 (h.ne (by decide) (by decide))
  · exact absurd (List.cons.inj ‹_›).1 (h.ne (by decide) (by decide))
  · exact absurd (List.cons.inj ‹_›).1 (h.ne (by decide) (by decide))
  · exact absurd (List.cons.inj ‹_›).1 (h.ne (by decide) (by decide))
  · exact absurd (List.cons.inj ‹_›).1 (h.ne (by decide) (by decide))
  · exact absurd (List.cons.inj ‹_›).1 (h.ne (by decide) (by decide))
  · rfl

/-- A value begins with neither a blank nor the end of an array. -/
theorem writeChars_head {j : Json} (h : Plain j) : ∃ c cs, writeChars j = c :: cs ∧ isBlank c = false ∧ c ≠ ']' := by
  cases j with
  | null => exact ⟨'n', _, rfl, by decide, by decide⟩
  | bool b => cases b <;> exact ⟨_, _, rfl, by decide, by decide⟩
  | int n =>
    obtain ⟨c, cs, hcs, hc⟩ := writeInt_head n
    exact ⟨c, cs, by rw [writeChars, hcs], hc.isBlank, hc.ne (by decide) (by decide)⟩
  | real x => exact h.elim
  | str s => exact ⟨'"', _, rfl, by decide, by decide⟩
  | arr items => cases items <;> exact ⟨'[', _, rfl, by decide, by decide⟩
  | obj entries => rcases entries with _ | ⟨⟨k, j⟩, es⟩ <;> exact ⟨'\x7b', _, rfl, by decide, by decide⟩
  | garbled => exact h.elim

theorem delimited_items (js : List Json) (rest : List Char) : Delimited (writeItems js ++ rest) := by
  cases js with
  | nil => rintro c ⟨⟩; exact .inr (.inl rfl)
  | cons j js => rintro c ⟨⟩; exact .inl rfl

theorem delimited_entries (es : List (String × Json)) (rest : List Char) : Delimited (writeEntries es ++ rest) := by
  rcases es with _ | ⟨⟨k, j⟩, es⟩
  · rintro c ⟨⟩; exact .inr (.inr rfl)
  · rintro c ⟨⟩; exact .inl rfl

theorem readValue_string (fuel : Nat) (s : String) (rest : List Char) :
    readValue (fuel + 1) (writeString s ++ rest) = some (.str s, rest) := by
  have hread := readString_written s.toList rest
  simp only [writeString, readValue, List.cons_append, List.append_assoc, List.nil_append,
    skipBlanks_cons (c := '"') rfl, hread, Option.map_some, Option.getD_some, String.ofList_toList]

section Steps

variable {fuel : Nat} {cs cs' rest : List Char} {j : Json}

theorem readValue_arr {c : Char} {items : List Json} (hblank : isBlank c = false) (hend : c ≠ ']')
    (h : readItems fuel (c :: cs) = some (items, rest)) :
    readValue (fuel + 1) ('[' :: c :: cs) = some (.arr items, rest) := by
  simp only [readValue, skipBlanks_cons (c := '[') rfl, skipBlanks_cons hblank]
  split
  · exact absurd (List.cons.inj ‹_›).1 hend
  · rw [h]
    rfl

theorem readItems_last (h : readValue fuel cs = some (j, ']' :: rest)) :
    readItems (fuel + 1) cs = some ([j], rest) := by
  rw [readItems, h]
  rfl

theorem readItems_more {js : List Json} (h : readValue fuel cs = some (j, ',' :: cs'))
    (hmore : readItems fuel cs' = some (js, rest)) : readItems (fuel + 1) cs = some (j :: js, rest) := by
  simp only [readItems, h, skipBlanks_cons (c := ',') rfl, hmore, Option.map_some]

theorem readValue_obj {s : String} {es : List (String × Json)}
    (h : readEntries fuel (writeString s ++ cs) = some (some es, rest)) :
    readValue (fuel + 1) ('\x7b' :: (writeString s ++ cs)) = some (.obj es, rest) := by
  have hquote : ∃ cs', writeString s ++ cs = '"' :: cs' := ⟨_, rfl⟩
  obtain ⟨cs', hcs'⟩ := hquote
  rw [hcs'] at h ⊢
  simp only [readValue, skipBlanks_cons (c := '\x7b') rfl, skipBlanks_cons (c := '"') rfl]
  split
  · exact absurd (List.cons.inj ‹_›).1 (by decide)
  · rw [h]
    rfl

theorem readEntries_last {k : String} (h : readValue fuel cs = some (j, '\x7d' :: rest)) :
    readEntries (fuel + 1) (writeString k ++ ':' :: cs) = some (some [(k, j)], rest) := by
  have hread := readString_written k.toList (':' :: cs)
  simp only [writeString, readEntries, List.cons_append, List.append_assoc, List.nil_append,
    skipBlanks_cons (c := '"') rfl, hread, skipBlanks_cons (c := ':') rfl, h, skipBlanks_cons (c := '\x7d') rfl,
    Option.map_some, String.ofList_toList]

theorem readEntries_more {k : String} {es : List (String × Json)} (h : readValue fuel cs = some (j, ',' :: cs'))
    (hmore : readEntries fuel cs' = some (some es, rest)) :
    readEntries (fuel + 1) (writeString k ++ ':' :: cs) = some (some ((k, j) :: es), rest) := by
  have hread := readString_written k.toList (':' :: cs)
  simp only [writeString, readEntries, List.cons_append, List.append_assoc, List.nil_append,
    skipBlanks_cons (c := '"') rfl, hread, skipBlanks_cons (c := ':') rfl, h, skipBlanks_cons (c := ',') rfl, hmore,
    Option.map_some, Option.bind_some, String.ofList_toList]

end Steps

theorem length_pos {j : Json} (h : Plain j) : 0 < (writeChars j).length := by
  obtain ⟨c, cs, hcs, _⟩ := writeChars_head h
  rw [hcs]
  exact Nat.succ_pos _

theorem length_items (j : Json) (js : List Json) :
    (writeItems (j :: js)).length = (writeChars j).length + (writeItems js).length + 1 := by
  rw [writeItems, List.cons_append, List.length_cons, List.length_append]

theorem length_entries (k : String) (j : Json) (es : List (String × Json)) :
    (writeEntries ((k, j) :: es)).length
      = (writeString k).length + (writeChars j).length + (writeEntries es).length + 2 := by
  simp only [writeEntries, List.length_append, List.length_cons]
  omega

mutual

/-- A plain document reads back from its text, with two calls for each character of it. What the brackets take up
pays for the call that reads what stands between them. -/
theorem readValue_written (rest : List Char) (hrest : Delimited rest) : ∀ (j : Json) (fuel : Nat), Plain j →
    2 * (writeChars j).length ≤ fuel + 2 → readValue (fuel + 1) (writeChars j ++ rest) = some (j, rest)
  | .null, _, _, _ => rfl
  | .bool true, _, _, _ => rfl
  | .bool false, _, _, _ => rfl
  | .int n, fuel, hj, _ => by
    obtain ⟨c, cs, hcs, hc⟩ := writeInt_head n
    have hnumber := readNumber_written hj.1 hj.2 hrest
    rw [writeChars]
    rw [hcs] at hnumber ⊢
    rw [List.cons_append, readValue_number hc]
    exact hnumber
  | .str s, fuel, _, _ => readValue_string fuel s rest
  | .arr [], _, _, _ => rfl
  | .arr (j :: js), fuel, hj, hfuel => by
    have hpos := length_pos hj.1
    have htext : writeChars (.arr (j :: js)) = '[' :: (writeItems (j :: js)).tail := rfl
    rw [htext, List.length_cons, List.length_tail, length_items] at hfuel
    obtain ⟨fuel, rfl⟩ : ∃ n, fuel = n + 2 := Nat.exists_eq_add_of_le' (by omega)
    have hitems := readItems_written rest (j :: js) fuel (by simp) hj (by rw [length_items]; omega)
    obtain ⟨c, cs, hcs, hblank, hend⟩ := writeChars_head hj.1
    rw [writeItems, hcs] at hitems
    rw [htext, writeItems, hcs]
    exact readValue_arr hblank hend hitems
  | .obj [], _, _, _ => rfl
  | .obj ((k, j) :: es), fuel, hj, hfuel => by
    have hpos := length_pos hj.2.1
    have htext : writeChars (.obj ((k, j) :: es)) = '\x7b' :: (writeEntries ((k, j) :: es)).tail := rfl
    rw [htext, List.length_cons, List.length_tail, length_entries] at hfuel
    obtain ⟨fuel, rfl⟩ : ∃ n, fuel = n + 2 := Nat.exists_eq_add_of_le' (by omega)
    have hentries := readEntries_written rest ((k, j) :: es) fuel (by simp) hj (by rw [length_entries]; omega)
    rw [htext]
    simp only [writeEntries, List.cons_append, List.tail_cons, List.append_assoc] at hentries ⊢
    exact readValue_obj hentries

/-- One or more items, of which the text is the one they have after an item, without the comma. -/
theorem readItems_written (rest : List Char) : ∀ (items : List Json) (fuel : Nat), items ≠ [] → PlainItems items →
    2 * (writeItems items).length ≤ fuel + 6 →
    readItems (fuel + 2) ((writeItems items).tail ++ rest) = some (items, rest)
  | [], _, hne, _, _ => absurd rfl hne
  | [j], fuel, _, hj, hfuel => by
    have hend : writeItems [] = [']'] := rfl
    rw [length_items, hend, List.length_singleton] at hfuel
    have hlast := readValue_written _ (delimited_items [] rest) j fuel hj.1 (by omega)
    rw [writeItems, List.cons_append, List.tail_cons, List.append_assoc]
    exact readItems_last hlast
  | j :: j' :: js, fuel, _, hj, hfuel => by
    have hpos := length_pos hj.1
    have hpos' := length_pos hj.2.1
    rw [length_items, length_items] at hfuel
    have hfirst := readValue_written _ (delimited_items (j' :: js) rest) j fuel hj.1 (by omega)
    obtain ⟨fuel, rfl⟩ : ∃ n, fuel = n + 1 := Nat.exists_eq_add_of_le' (by omega)
    have hmore := readItems_written rest (j' :: js) fuel (by simp) hj.2 (by rw [length_items]; omega)
    rw [writeItems, List.cons_append, List.tail_cons, List.append_assoc]
    exact readItems_more hfirst hmore

/-- One or more entries, in the same way. -/
theorem readEntries_written (rest : List Char) : ∀ (entries : List (String × Json)) (fuel : Nat), entries ≠ [] →
    PlainEntries entries → 2 * (writeEntries entries).length ≤ fuel + 6 →
    readEntries (fuel + 2) ((writeEntries entries).tail ++ rest) = some (some entries, rest)
  | [], _, hne, _, _ => absurd rfl hne
  | [(k, j)], fuel, _, hj, hfuel => by
    rw [length_entries] at hfuel
    have hlast := readValue_written _ (delimited_entries [] rest) j fuel hj.2.1 (by omega)
    simp only [writeEntries, List.cons_append, List.tail_cons, List.append_assoc]
    exact readEntries_last hlast
  | (k, j) :: (k', j') :: es, fuel, _, hj, hfuel => by
    have hpos := length_pos hj.2.1
    have hpos' := length_pos hj.2.2.2.1
    rw [length_entries, length_entries] at hfuel
    have hfirst := readValue_written _ (delimited_entries ((k', j') :: es) rest) j fuel hj.2.1 (by omega)
    obtain ⟨fuel, rfl⟩ : ∃ n, fuel = n + 1 := Nat.exists_eq_add_of_le' (by omega)
    have hmore := readEntries_written rest ((k', j') :: es) fuel (by simp) hj.2.2 (by rw [length_entries]; omega)
    rw [writeEntries]
    simp only [List.cons_append, List.tail_cons, List.append_assoc]
    exact readEntries_more hfirst hmore

end

/-- The text of a plain document reads back as it. -/
theorem read_write {j : Json} (h : Plain j) : read (write j) = some j := by
  have hread := readValue_written [] (fun _ hc => nomatch hc) j (2 * (writeChars j).length + 1) h (by omega)
  rw [List.append_nil] at hread
  rw [read, write, String.toList_ofList, readChars, hread]
  rfl

end LedgerWatch.Json
