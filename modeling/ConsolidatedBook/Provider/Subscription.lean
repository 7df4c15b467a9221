import ConsolidatedBook.Provider
import ConsolidatedBook.JsonText.Reading

namespace ConsolidatedBook

open JsonText

/-- Letters and digits. -/
def IsName (instrument : String) : Prop :=
  ∀ c ∈ instrument.toList, c.isAlphanum = true

theorem alphanum_lt {c : Char} (alphanumeric : c.isAlphanum = true) : c.toNat < 128 := by
  have same : c.toNat = c.val.toNat := rfl
  rcases (Bool.or_eq_true _ _).mp alphanumeric with letter | digit
  · rcases (Bool.or_eq_true _ _).mp letter with upper | lower
    · have last : c.val.toNat ≤ 'Z'.val.toNat := UInt32.le_iff_toNat_le.mp (of_decide_eq_true upper).2
      have code : 'Z'.val.toNat = 90 := rfl
      omega
    · have last : c.val.toNat ≤ 'z'.val.toNat :=
        UInt32.le_iff_toNat_le.mp (of_decide_eq_true ((Bool.and_eq_true _ _).mp lower).2)
      have code : 'z'.val.toNat = 122 := rfl
      omega
  · have last : c.val.toNat ≤ '9'.val.toNat :=
      UInt32.le_iff_toNat_le.mp (of_decide_eq_true ((Bool.and_eq_true _ _).mp digit).2)
    have code : '9'.val.toNat = 57 := rfl
    omega

theorem plain_ascii : ∀ n < 128, (Char.ofNat n).isAlphanum = true →
    isPlainChar (Char.ofNat n) = true ∧ isPlainChar (Char.ofNat n).toLower = true := by
  decide +kernel

theorem IsName.plain_both {instrument : String} (name : IsName instrument) {c : Char}
    (member : c ∈ instrument.toList) : isPlainChar c = true ∧ isPlainChar c.toLower = true := by
  have plain := plain_ascii c.toNat (alphanum_lt (name c member))
  rw [Char.ofNat_toNat] at plain
  exact plain (name c member)

theorem IsName.plain {instrument : String} (name : IsName instrument) : IsPlain instrument.toList :=
  List.all_eq_true.mpr fun _ member => (name.plain_both member).1

end ConsolidatedBook
