import Mathlib.Data.String.Basic

/-!
# Texts in the order of their bytes

Texts are compared character by character. UTF-8 is made so that comparing the bytes gives the same
order, though a character takes up to four of them:

1. Of two characters the smaller one has the smaller bytes, whatever stands behind them
   (`utf8EncodeChar_append_lt`). A character that takes more bytes has a greater first byte, and
   among those that take equally many the bytes are digits, the highest first.
2. So two texts are in the order of their bytes, by induction on the characters
   (`Text.bytes_lt_iff`).
-/

namespace CalcBasic

/-- The bytes of a text. -/
def Text.bytes (s : String) : List UInt8 := s.toByteArray.data.toList

namespace Text

theorem bytes_eq_flatMap (s : String) : bytes s = s.toList.flatMap String.utf8EncodeChar := by
  have encoded := congrArg (·.data.toList) (String.toByteArray_ofList (l := s.toList))
  simpa [bytes, String.ofList_toList, List.utf8Encode] using encoded

theorem utf8EncodeChar_append_lt {c d : Char} (h : c < d) (behind behind' : List UInt8) :
    String.utf8EncodeChar c ++ behind < String.utf8EncodeChar d ++ behind' := by
  have less : c.val.toNat < d.val.toNat := h
  have bound : d.val.toNat < 0x110000 := by
    have valid : d.val.toNat.isValidChar := d.valid
    unfold Nat.isValidChar at valid
    omega
  unfold String.utf8EncodeChar
  dsimp only
  generalize c.val.toNat = m at less ⊢
  generalize d.val.toNat = n at less bound ⊢
  -- The digits to the base 64, so that the higher ones are found from the lower ones.
  have squares : ∀ k : Nat, k / 4096 = k / 64 / 64 := fun k => by omega
  have cubes : ∀ k : Nat, k / 262144 = k / 64 / 64 / 64 := fun k => by omega
  simp only [squares, cubes]
  split_ifs <;>
    simp only [List.cons_append, List.nil_append, List.cons_lt_cons_iff, UInt8.lt_iff_toNat_lt,
      ← UInt8.toNat_inj, UInt8.toNat_ofNat'] <;>
    omega

theorem flatMap_lt_of_lt {cs ds : List Char} (h : cs < ds) :
    cs.flatMap String.utf8EncodeChar < ds.flatMap String.utf8EncodeChar := by
  induction ds generalizing cs with
  | nil => exact absurd h (List.not_lt_nil cs)
  | cons d ds ih =>
    cases cs with
    | nil =>
      obtain ⟨b, bytes, first⟩ := List.exists_cons_of_ne_nil (String.utf8EncodeChar_ne_nil (c := d))
      rw [List.flatMap_nil, List.flatMap_cons, first]
      exact List.nil_lt_cons b _
    | cons c cs =>
      rw [List.flatMap_cons, List.flatMap_cons]
      rcases List.cons_lt_cons_iff.1 h with less | ⟨rfl, behind⟩
      · exact utf8EncodeChar_append_lt less _ _
      · exact List.append_left_lt (ih behind)

/-- **Order of bytes.** One text is before another exactly when its bytes are. -/
theorem bytes_lt_iff {s t : String} : bytes s < bytes t ↔ s < t := by
  rw [bytes_eq_flatMap, bytes_eq_flatMap, String.lt_iff_toList_lt]
  constructor
  · intro h
    rcases lt_trichotomy s.toList t.toList with less | same | greater
    · exact less
    · exact absurd (same ▸ h) (List.lt_irrefl _)
    · exact absurd (List.lt_trans h (flatMap_lt_of_lt greater)) (List.lt_irrefl _)
  · exact flatMap_lt_of_lt

theorem pairwise_mergeSort {α : Type} (text : α → String) (l : List α) :
    (l.mergeSort fun a b => decide (text a ≤ text b)).Pairwise fun a b => text a ≤ text b := by
  refine List.Pairwise.imp (fun hab => of_decide_eq_true hab) (List.pairwise_mergeSort ?_ ?_ _)
  · intro a b c hab hbc
    simp only [decide_eq_true_eq] at hab hbc ⊢
    exact hab.trans hbc
  · intro a b
    simp only [Bool.or_eq_true, decide_eq_true_eq]
    exact le_total (text a) (text b)

end Text

end CalcBasic
