import Mathlib.Data.List.Basic
import EntityQuery.Text.Case
/-!
Lower case and the characters before the capital letters. The mapping moves letters among letters; a sign
or a digit is neither moved nor is it what anything is moved to, so a text in lower case has the signs and
the digits of the text.
-/
namespace EntityQuery.Text

/-- Runs start among the letters and lead to letters. -/
theorem letters_of_lowerRuns : ∀ r ∈ lowerRuns, 65 ≤ r.1 ∧ 65 ≤ (r.1 : Int) + r.2.2.2 := by
  decide +kernel

theorem letters_of_lowerSpecial : ∀ e ∈ lowerSpecial, 65 ≤ e.1 ∧ ∀ n ∈ e.2, 65 ≤ n := by
  decide +kernel

theorem toNat_of_ofNat {n : Nat} {d : Char} (hd : 0 < d.toNat) (h : Char.ofNat n = d) : d.toNat = n := by
  subst h
  by_cases hvalid : n.isValidChar
  · rw [Char.ofNat, dif_pos hvalid]
    rfl
  · rw [Char.ofNat, dif_neg hvalid] at hd
    exact absurd hd (by decide)

variable {c d : Char}

/-- No run moves a character before the letters, or leads to one. -/
theorem mapRun_eq_iff (hpos : 0 < d.toNat) (hlow : d.toNat < 65) : mapRun lowerRuns c = d ↔ c = d := by
  unfold mapRun
  dsimp only
  constructor
  · intro h
    split at h
    · rename_i r hr
      have hcovers := List.find?_some hr
      have hletters := letters_of_lowerRuns r (List.mem_of_find?_eq_some hr)
      have himage := toNat_of_ofNat hpos h
      simp only [decide_eq_true_eq] at hcovers
      omega
    · exact h
  · rintro rfl
    split
    · rename_i r hr
      have hcovers := List.find?_some hr
      have hletters := letters_of_lowerRuns r (List.mem_of_find?_eq_some hr)
      simp only [decide_eq_true_eq] at hcovers
      omega
    · rfl

theorem mem_mapCase_iff (hpos : 0 < d.toNat) (hlow : d.toNat < 65) :
    d ∈ mapCase lowerSpecial lowerRuns c ↔ c = d := by
  unfold mapCase
  split
  · rename_i cs hcs
    obtain ⟨before, after, hsplit, -⟩ := List.lookup_eq_some_iff.mp hcs
    have hletters := letters_of_lowerSpecial (c.toNat, cs) (by simp [hsplit])
    constructor
    · intro h
      obtain ⟨n, hn, himage⟩ := List.mem_map.mp h
      have := toNat_of_ofNat hpos himage
      have := hletters.2 n hn
      omega
    · rintro rfl
      have := hletters.1
      omega
  · rw [List.mem_singleton, eq_comm, mapRun_eq_iff hpos hlow]

/-- A text in lower case has the signs and the digits of the text. -/
theorem mem_lower_iff (hpos : 0 < d.toNat) (hlow : d.toNat < 65) (s : String) :
    d ∈ (lower s).toList ↔ d ∈ s.toList := by
  have hfrom : ∀ before cs, d ∈ lowerFrom before cs ↔ d ∈ cs := by
    intro before cs
    induction cs generalizing before with
    | nil => rfl
    | cons c rest ih =>
      rw [lowerFrom, List.mem_append, ih, List.mem_cons]
      refine or_congr_left ?_
      by_cases hsigma : c = 'Σ'
      · -- neither form of the small sigma lies before the letters
        have hfinal : 'ς'.toNat = 962 := by decide
        have hmedial : 'σ'.toNat = 963 := by decide
        have hcapital : 'Σ'.toNat = 931 := by decide
        subst hsigma
        rw [if_pos rfl, List.mem_singleton]
        refine iff_of_false ?_ ?_
        · split <;> (rintro rfl; omega)
        · rintro rfl
          omega
      · rw [if_neg hsigma, mem_mapCase_iff hpos hlow, eq_comm]
  unfold lower
  rw [String.toList_ofList, hfrom]

end EntityQuery.Text
