/-!
Cutting texts at separators.
-/
namespace EntityQuery.Text

/-- The part of a text after its last dot. -/
def afterLastDot (s : String) : String :=
  String.ofList (s.toList.reverse.takeWhile (· != '.')).reverse

/-- The text before its last dot and the part after it; nothing before when there is no dot. -/
def splitLastDot (s : String) : String × String :=
  let rev := s.toList.reverse
  let tail := (rev.takeWhile (· != '.')).reverse
  (String.ofList ((rev.dropWhile (· != '.')).drop 1).reverse, String.ofList tail)

/-- The text before its first dot and the part after it; none when there is no dot. -/
def splitFirstDot? (s : String) : Option (String × String) :=
  let head := s.toList.takeWhile (· != '.')
  match s.toList.dropWhile (· != '.') with
  | [] => none
  | _ :: tail => some (String.ofList head, String.ofList tail)

/-- A list without a dot is all that stands before the first dot. -/
theorem cut_dotless {cs : List Char} (h : '.' ∉ cs) :
    cs.takeWhile (· != '.') = cs ∧ cs.dropWhile (· != '.') = [] ∧
      ∀ rest, (cs ++ '.' :: rest).takeWhile (· != '.') = cs ∧
        (cs ++ '.' :: rest).dropWhile (· != '.') = '.' :: rest := by
  have hall : ∀ c ∈ cs, (c != '.') = true := fun c hc => by
    have hne : c ≠ '.' := fun e => h (e ▸ hc)
    simpa using hne
  refine ⟨?_, ?_, fun rest => ⟨?_, ?_⟩⟩
  · have htake : (cs ++ []).takeWhile (· != '.') = cs ++ [] := List.takeWhile_append_of_pos hall
    simpa using htake
  · have hdrop : (cs ++ []).dropWhile (· != '.') = [] := List.dropWhile_append_of_pos hall
    simpa using hdrop
  · simp [List.takeWhile_append_of_pos hall]
  · simp [List.dropWhile_append_of_pos hall]

theorem splitLastDot_append {a f : String} (hf : '.' ∉ f.toList) :
    splitLastDot (a ++ "." ++ f) = (a, f) := by
  have hrev : '.' ∉ f.toList.reverse := by simpa using hf
  obtain ⟨-, -, hcut⟩ := cut_dotless hrev
  have happend : (a ++ "." ++ f).toList.reverse = f.toList.reverse ++ '.' :: a.toList.reverse := by
    simp
  simp only [splitLastDot, happend, hcut]
  simp

theorem splitLastDot_dotless {f : String} (hf : '.' ∉ f.toList) : splitLastDot f = ("", f) := by
  have hrev : '.' ∉ f.toList.reverse := by simpa using hf
  obtain ⟨htake, hdrop, -⟩ := cut_dotless hrev
  simp only [splitLastDot, htake, hdrop]
  simp

theorem splitFirstDot?_append {a f : String} (ha : '.' ∉ a.toList) :
    splitFirstDot? (a ++ "." ++ f) = some (a, f) := by
  obtain ⟨-, -, hcut⟩ := cut_dotless ha
  have hcs : (a ++ "." ++ f).toList = a.toList ++ '.' :: f.toList := by simp
  simp only [splitFirstDot?, hcs, hcut]
  simp

theorem splitFirstDot?_dotless {f : String} (hf : '.' ∉ f.toList) : splitFirstDot? f = none := by
  simp only [splitFirstDot?, (cut_dotless hf).2.1]

/-- The text after a given start. -/
def dropPrefix? (pre s : String) : Option String :=
  if pre.toList.isPrefixOf s.toList then some (String.ofList (s.toList.drop pre.length)) else none

/-- The pieces of a text between the separators; there is at least one. -/
def splitAt (sep : Char) (cs : List Char) : List (List Char) :=
  match cs with
  | [] => [[]]
  | c :: rest =>
    if c = sep then [] :: splitAt sep rest
    else match splitAt sep rest with
      | [] => [[c]]
      | piece :: pieces => (c :: piece) :: pieces

theorem splitAt_without {sep : Char} {cs : List Char} (h : sep ∉ cs) : splitAt sep cs = [cs] := by
  induction cs with
  | nil => rfl
  | cons c cs ih =>
    have hc : c ≠ sep := fun e => h (by simp [e])
    have hcs : sep ∉ cs := fun hm => h (by simp [hm])
    rw [splitAt, if_neg hc, ih hcs]

theorem splitAt_append {sep : Char} {cs : List Char} (h : sep ∉ cs) (rest : List Char) :
    splitAt sep (cs ++ sep :: rest) = cs :: splitAt sep rest := by
  induction cs with
  | nil => simp [splitAt]
  | cons c cs ih =>
    have hc : c ≠ sep := fun e => h (by simp [e])
    have hcs : sep ∉ cs := fun hm => h (by simp [hm])
    rw [List.cons_append, splitAt, if_neg hc, ih hcs]

/-- The part of a list before the first place where a separator stands, and the part behind it;
none if it stands nowhere. -/
def splitFirst? (separator : List Char) : List Char → Option (List Char × List Char)
  | [] => if separator.isEmpty then some ([], []) else none
  | c :: cs =>
    if separator.isPrefixOf (c :: cs) then some ([], (c :: cs).drop separator.length)
    else (splitFirst? separator cs).map fun p => (c :: p.1, p.2)

end EntityQuery.Text
