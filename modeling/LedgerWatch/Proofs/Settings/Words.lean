/-
  LedgerWatch.Proofs.Settings.Words — what the value of a variable says.

  Blanks at either end are not part of it (`trim_eq_iff`). A flag says yes or no in one of
  four words each, in letters of either case (`flag?_eq_some_iff`). Only ASCII letters are
  folded for that. It is enough: the lower-case form of any other character has something
  in it that no word has, so every way to lower the case of texts that is as usual on
  ASCII finds the same words (`says_iff_lowered`).
-/

import LedgerWatch.Proofs.Text.Hexadecimal
import LedgerWatch.Settings.Environment
import Mathlib.Data.List.Forall2
import Mathlib.Data.List.TakeWhile

namespace LedgerWatch

namespace Text

/-! ## Blanks around a word -/

/-- `word` is what is left of `cs` between the blanks at its ends. -/
def Trims (cs word : List Char) : Prop :=
  ∃ front back, cs = front ++ word ++ back ∧ (∀ c ∈ front, isBlank c = true) ∧ (∀ c ∈ back, isBlank c = true) ∧
    (∀ c ∈ word.head?, isBlank c = false) ∧ ∀ c ∈ word.getLast?, isBlank c = false

variable {cs word : List Char}

theorem head?_dropWhile_blank {c : Char} (h : c ∈ (cs.dropWhile isBlank).head?) : isBlank c = false := by
  have hnot := List.head?_dropWhile_not isBlank cs
  rwa [Option.mem_def.mp h] at hnot

theorem dropWhile_blank {front rest : List Char} (hfront : ∀ c ∈ front, isBlank c = true)
    (hrest : ∀ c ∈ rest.head?, isBlank c = false) : (front ++ rest).dropWhile isBlank = rest := by
  rw [List.dropWhile_append_of_pos hfront]
  cases rest with
  | nil => rfl
  | cons c rest => exact List.dropWhile_cons_of_neg (by simpa using hrest c rfl)

theorem trims_trim (cs : List Char) : Trims cs (trim cs) := by
  -- the blanks in front are taken off first, those behind from the other end
  let rest := cs.dropWhile isBlank
  have hfront : cs.takeWhile isBlank ++ rest = cs := List.takeWhile_append_dropWhile
  have hback : trim cs ++ (rest.reverse.takeWhile isBlank).reverse = rest := by
    have hsplit : rest.reverse.takeWhile isBlank ++ rest.reverse.dropWhile isBlank = rest.reverse :=
      List.takeWhile_append_dropWhile
    rw [trim, ← List.reverse_append, hsplit, List.reverse_reverse]
  refine ⟨cs.takeWhile isBlank, (rest.reverse.takeWhile isBlank).reverse, ?_, ?_, ?_, ?_, ?_⟩
  · rw [List.append_assoc, hback, hfront]
  · exact fun c hc => List.mem_takeWhile_imp hc
  · exact fun c hc => List.mem_takeWhile_imp (List.mem_reverse.mp hc)
  · intro c hc
    have hin : c ∈ rest.head? := by
      rw [← hback, List.head?_append, Option.mem_def.mp hc]
      rfl
    exact head?_dropWhile_blank hin
  · intro c hc
    rw [trim, List.getLast?_reverse] at hc
    exact head?_dropWhile_blank hc

theorem trim_of_trims (h : Trims cs word) : trim cs = word := by
  obtain ⟨front, back, rfl, hfront, hback, hhead, hlast⟩ := h
  have hrest : (front ++ word ++ back).dropWhile isBlank = if word = [] then [] else word ++ back := by
    rw [List.append_assoc, List.dropWhile_append_of_pos hfront]
    cases word with
    | nil => exact List.dropWhile_eq_nil_iff.mpr hback
    | cons c word => exact List.dropWhile_cons_of_neg (by simpa using hhead c rfl)
  rw [trim, hrest]
  split
  · rename_i hempty
    rw [hempty]
    rfl
  · have hblank : ∀ c ∈ back.reverse, isBlank c = true := fun c hc => hback c (List.mem_reverse.mp hc)
    have hword : ∀ c ∈ word.reverse.head?, isBlank c = false := by rwa [List.head?_reverse]
    rw [List.reverse_append, dropWhile_blank hblank hword, List.reverse_reverse]

theorem trim_eq_iff : trim cs = word ↔ Trims cs word := ⟨fun h => h ▸ trims_trim cs, trim_of_trims⟩

end Text

open Text

/-! ## Yes and no -/

/-- The words for yes and those for no. -/
def flagWords : Bool → List String
  | true => ["1", "true", "yes", "on"]
  | false => ["0", "false", "no", "off"]

/-- A text is a word for yes or for no, in letters of either case and with blanks around it or none. -/
def Says (raw : String) (b : Bool) : Prop :=
  ∃ word, Trims raw.toList word ∧ String.ofList (word.map Char.toLower) ∈ flagWords b

theorem says_iff {raw : String} {b : Bool} :
    Says raw b ↔ String.ofList ((trim raw.toList).map Char.toLower) ∈ flagWords b := by
  constructor
  · rintro ⟨word, hword, hin⟩
    rwa [trim_of_trims hword]
  · intro hin
    exact ⟨_, trims_trim _, hin⟩

theorem flag?_eq_some_iff {raw : String} {b : Bool} : flag? raw = some b ↔ Says raw b := by
  rw [says_iff]
  unfold flag?
  generalize String.ofList ((trim raw.toList).map Char.toLower) = word
  cases b with
  | true =>
    simp only [flagWords, List.mem_cons, List.not_mem_nil, or_false]
    split
    · rename_i hyes
      exact iff_of_true rfl hyes
    · rename_i hother
      refine iff_of_false (fun h => ?_) hother
      split at h <;> cases h
  | false =>
    simp only [flagWords, List.mem_cons, List.not_mem_nil, or_false]
    split
    · rename_i hyes
      rcases hyes with rfl | rfl | rfl | rfl <;> decide
    · split
      · rename_i hno
        exact iff_of_true rfl hno
      · rename_i hother
        exact iff_of_false nofun hother

theorem flag?_eq_none_iff {raw : String} : flag? raw = none ↔ ∀ b, ¬Says raw b := by
  simp only [← flag?_eq_some_iff]
  cases flag? raw with
  | none => simp
  | some b => simp

/-! ## Case -/

/-- The characters in the words. -/
def flagLetters : List Char := ['0', '1', 'a', 'e', 'f', 'l', 'n', 'o', 'r', 's', 't', 'u', 'y']

/-- The lower-case form of a character: the usual one of an ASCII character; that of any other has something in it
which is in no word for yes or no. -/
def Lowers (c : Char) (lower : List Char) : Prop :=
  if c.toNat < 128 then lower = [c.toLower] else ∃ d ∈ lower, d ∉ flagLetters

/-- A way to lower the case of texts, character by character, if not always the same way. -/
def LowersCase (lower : List Char → List Char) : Prop :=
  ∀ cs, ∃ parts, List.Forall₂ Lowers cs parts ∧ lower cs = parts.flatten

theorem flagLetters_of_mem {b : Bool} {cs : List Char} (h : String.ofList cs ∈ flagWords b) :
    ∀ c ∈ cs, c ∈ flagLetters := by
  have hwords : ((flagWords b).all fun w => w.toList.all flagLetters.contains) = true := by
    cases b <;> rfl
  have hword := List.all_eq_true.mp hwords _ h
  rw [String.toList_ofList] at hword
  exact fun c hc => List.contains_iff_mem.mp (List.all_eq_true.mp hword c hc)

theorem wide_not_mem {c : Char} (h : ¬c.toNat < 128) : c.toLower ∉ flagLetters := by
  have hascii : (flagLetters.all fun d => d.toNat < 128) = true := rfl
  intro hin
  have hlower := of_decide_eq_true (List.all_eq_true.mp hascii _ hin)
  rw [Hex.toNat_toLower] at hlower
  split at hlower <;> omega

/-- Lower-cased texts are the same as far as they are ASCII, and no words otherwise. -/
theorem lowered_cases {cs : List Char} {parts : List (List Char)} (h : List.Forall₂ Lowers cs parts) :
    parts.flatten = cs.map Char.toLower ∨
      (∃ d ∈ parts.flatten, d ∉ flagLetters) ∧ ∃ c ∈ cs.map Char.toLower, c ∉ flagLetters := by
  induction h with
  | nil => exact .inl rfl
  | @cons c part cs parts hpart hparts ih =>
    rw [List.map_cons, List.flatten_cons]
    unfold Lowers at hpart
    split at hpart
    · subst hpart
      rcases ih with heq | ⟨⟨d, hd, hdout⟩, e, he, heout⟩
      · exact .inl (by rw [heq, List.singleton_append])
      · exact .inr ⟨⟨d, List.mem_append_right _ hd, hdout⟩, e, List.mem_cons_of_mem _ he, heout⟩
    · rename_i hwide
      obtain ⟨d, hd, hdout⟩ := hpart
      exact .inr ⟨⟨d, List.mem_append_left _ hd, hdout⟩, _, List.mem_cons_self, wide_not_mem hwide⟩

/-- To leave all characters but the ASCII letters as they are is one way to lower the case. -/
theorem lowersCase_map : LowersCase (List.map Char.toLower) := by
  intro cs
  refine ⟨cs.map fun c => [c.toLower], ?_, List.map_eq_flatMap⟩
  rw [List.forall₂_map_right_iff, List.forall₂_same]
  intro c _
  unfold Lowers
  split
  · rfl
  · rename_i hwide
    exact ⟨_, List.mem_singleton_self _, wide_not_mem hwide⟩

theorem says_iff_lowered {lower : List Char → List Char} (h : LowersCase lower) (raw : String) (b : Bool) :
    Says raw b ↔ String.ofList (lower (trim raw.toList)) ∈ flagWords b := by
  obtain ⟨parts, hparts, hlower⟩ := h (trim raw.toList)
  rw [says_iff, hlower]
  rcases lowered_cases hparts with heq | ⟨⟨d, hd, hdout⟩, c, hc, hcout⟩
  · rw [heq]
  · exact iff_of_false (fun hin => hcout (flagLetters_of_mem hin c hc)) fun hin => hdout (flagLetters_of_mem hin d hd)

end LedgerWatch
