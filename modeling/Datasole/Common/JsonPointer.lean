import Mathlib.Data.List.Basic

/-!
# JSON pointers

A pointer is written as its reference tokens, each behind a `/`. In a token `~` and `/` are written
`~0` and `~1`, so no token contains the separator: `splitPath_pointer` and `tokens_pointer` read the
tokens back.
-/

namespace JsonPointer

def escapeChar : Char → List Char
  | '~' => ['~', '0']
  | '/' => ['~', '1']
  | c => [c]

def escape (token : String) : String := String.ofList (token.toList.flatMap escapeChar)

/-- From left to right, so that `~01` is `~1`. -/
def unescapeChars : List Char → List Char
  | '~' :: '0' :: cs => '~' :: unescapeChars cs
  | '~' :: '1' :: cs => '/' :: unescapeChars cs
  | c :: cs => c :: unescapeChars cs
  | [] => []

def unescape (token : String) : String := String.ofList (unescapeChars token.toList)

/-- The text of a pointer. -/
def pointer : List String → String
  | [] => ""
  | token :: tokens => "/" ++ escape token ++ pointer tokens

/-- `path.split('/')`. -/
def splitPath (path : String) : List String := (path.toList.splitOn '/').map String.ofList

/-- What comes before the first `/` is dropped. -/
def tokens (path : String) : List String := (splitPath path).tail.map unescape

theorem toList_escape (token : String) :
    (escape token).toList = token.toList.flatMap escapeChar := by
  rw [escape, String.toList_ofList]

/-- No escaped character has a slash. -/
theorem slash_not_mem_escapeChar (c : Char) : '/' ∉ escapeChar c := by
  unfold escapeChar
  split
  · decide
  · decide
  · next hne => exact fun h => hne (List.mem_singleton.mp h).symm

theorem slash_not_mem_escape (token : String) : '/' ∉ (escape token).toList := by
  rw [toList_escape, List.mem_flatMap]
  exact fun ⟨c, _, h⟩ => slash_not_mem_escapeChar c h

/-- Unescaping undoes the escaping of the first character and goes on. -/
theorem unescapeChars_escapeChar (c : Char) (cs : List Char) :
    unescapeChars (escapeChar c ++ cs) = c :: unescapeChars cs := by
  unfold escapeChar
  split
  · rfl
  · rfl
  · next htilde _ =>
    rw [List.singleton_append, unescapeChars.eq_def]
    split
    · next h => exact absurd (List.cons.inj h).1 htilde
    · next h => exact absurd (List.cons.inj h).1 htilde
    · next h => obtain ⟨rfl, rfl⟩ := List.cons.inj h; rfl
    · next h => cases h

/-- Unescaping undoes escaping. -/
theorem unescape_escape (token : String) : unescape (escape token) = token := by
  have hchars (cs : List Char) : unescapeChars (cs.flatMap escapeChar) = cs := by
    induction cs with
    | nil => rfl
    | cons c cs ih => rw [List.flatMap_cons, unescapeChars_escapeChar, ih]
  rw [unescape, toList_escape, hchars, String.ofList_toList]

/-- Without a tilde there is nothing to unescape. -/
theorem unescapeChars_of_tilde_not_mem {cs : List Char} (h : '~' ∉ cs) : unescapeChars cs = cs := by
  induction cs with
  | nil => rfl
  | cons c cs ih =>
    rw [List.mem_cons, not_or] at h
    rw [unescapeChars.eq_def]
    split
    · next heq => exact absurd (List.cons.inj heq).1.symm h.1
    · next heq => exact absurd (List.cons.inj heq).1.symm h.1
    · next heq =>
      obtain ⟨rfl, rfl⟩ := List.cons.inj heq
      rw [ih h.2]
    · next heq => cases heq

/-- What is read as neither `~` nor `/` is written as it is. -/
theorem eq_unescapeChars {cs : List Char} (htilde : '~' ∉ unescapeChars cs)
    (hslash : '/' ∉ unescapeChars cs) : unescapeChars cs = cs := by
  fun_induction unescapeChars cs with
  | case1 cs ih => exact absurd List.mem_cons_self htilde
  | case2 cs ih => exact absurd List.mem_cons_self hslash
  | case3 c cs _ _ ih =>
    rw [List.mem_cons, not_or] at htilde hslash
    rw [ih htilde.2 hslash.2]
  | case4 => rfl

/-- No escape sequence makes a name without `~` and `/`, or hides one. -/
theorem unescape_eq_iff {name : String} (htilde : '~' ∉ name.toList) (hslash : '/' ∉ name.toList)
    (token : String) : unescape token = name ↔ token = name := by
  constructor
  · rintro rfl
    rw [unescape, String.toList_ofList] at htilde hslash
    rw [unescape, eq_unescapeChars htilde hslash, String.ofList_toList]
  · rintro rfl
    rw [unescape, unescapeChars_of_tilde_not_mem htilde, String.ofList_toList]

/-- A token that shows no `~` when it is written is written as it is. -/
theorem escape_eq_self {token : String} (h : '~' ∉ (escape token).toList) :
    escape token = token := by
  have hchars (cs : List Char) (hcs : '~' ∉ cs.flatMap escapeChar) :
      cs.flatMap escapeChar = cs := by
    induction cs with
    | nil => rfl
    | cons c cs ih =>
      rw [List.flatMap_cons, List.mem_append, not_or] at hcs
      have hc : escapeChar c = [c] := by
        by_cases htilde : c = '~'
        · subst htilde
          exact absurd List.mem_cons_self hcs.1
        by_cases hslash : c = '/'
        · subst hslash
          exact absurd List.mem_cons_self hcs.1
        · simp only [escapeChar]
      rw [List.flatMap_cons, hc, ih hcs.2]
      rfl
  rw [toList_escape] at h
  rw [escape, hchars token.toList h, String.ofList_toList]

/-- The pieces of a pointer are its tokens as they are written. -/
theorem splitPath_pointer (ts : List String) : splitPath (pointer ts) = "" :: ts.map escape := by
  have hsplit (xs : List Char) (hxs : '/' ∉ xs) :
      (xs ++ (pointer ts).toList).splitOn '/' = xs :: ts.map fun t => (escape t).toList := by
    induction ts generalizing xs with
    | nil =>
      rw [pointer, String.toList_empty, List.append_nil, List.splitOn_eq_singleton hxs,
        List.map_nil]
    | cons t ts ih =>
      have hlist :
          (pointer (t :: ts)).toList = '/' :: ((escape t).toList ++ (pointer ts).toList) := by
        rw [pointer, String.toList_append, String.toList_append]
        rfl
      rw [hlist, List.splitOn_append_cons_self_of_not_mem hxs, ih _ (slash_not_mem_escape t)]
      rfl
  have h := hsplit [] List.not_mem_nil
  rw [List.nil_append] at h
  rw [splitPath, h, List.map_cons, List.map_map, String.ofList_nil]
  exact congrArg _ (List.map_congr_left fun t _ => String.ofList_toList)

theorem tokens_pointer (ts : List String) : tokens (pointer ts) = ts := by
  rw [tokens, splitPath_pointer, List.tail_cons, List.map_map]
  exact (List.map_congr_left fun t _ => unescape_escape t).trans (List.map_id ts)

end JsonPointer
