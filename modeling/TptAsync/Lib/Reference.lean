import TptAsync.Lib.Bytes
import Mathlib.Data.List.DropRight

set_option autoImplicit false

/-!
# References

References as uniform resource identifiers have them. Any text splits into the five components, and
is put together from these again. A reference is resolved against a base.
-/

namespace TptAsync.Lib

section Cut

variable {α : Type}

/-- A part with the delimiter in front of it, if it is there. -/
def behind (delimiter : α) : Option (List α) → List α
  | none => []
  | some part => delimiter :: part

/-- Texts that agree up to and with a delimiter, which their fronts do not hold, agree in parts. -/
theorem append_behind_inj {delimiter : α} {front front' : List α} {back back' : Option (List α)}
    (bare : delimiter ∉ front) (bare' : delimiter ∉ front') :
    front ++ behind delimiter back = front' ++ behind delimiter back' ↔ front = front' ∧ back = back' := by
  constructor
  · intro same
    induction front generalizing front' with
    | nil =>
        cases front' with
        | nil => cases back <;> cases back' <;> simp_all [behind]
        | cons first rest => cases back <;> cases back' <;> simp_all [behind]
    | cons first rest ih =>
        cases front' with
        | nil => cases back' <;> simp_all [behind]
        | cons first' rest' =>
            simp only [List.cons_append, List.cons.injEq, List.mem_cons, not_or] at same bare bare'
            obtain ⟨rest, back⟩ := ih bare.2 bare'.2 same.2
            exact ⟨by rw [same.1, rest], back⟩
  · rintro ⟨rfl, rfl⟩
    rfl

variable [DecidableEq α]

/-- What stands in front of the first `delimiter`, and what stands behind it. -/
def cut (delimiter : α) : List α → List α × Option (List α)
  | [] => ([], none)
  | first :: rest =>
      if first = delimiter then ([], some rest)
      else (first :: (cut delimiter rest).1, (cut delimiter rest).2)

theorem cut_eq (delimiter : α) (text : List α) :
    (cut delimiter text).1 ++ behind delimiter (cut delimiter text).2 = text := by
  induction text with
  | nil => rfl
  | cons first rest ih =>
      rw [cut]
      split
      · next same => rw [same]; rfl
      · rw [List.cons_append, ih]

theorem cut_bare (delimiter : α) (text : List α) : delimiter ∉ (cut delimiter text).1 := by
  induction text with
  | nil => simp [cut]
  | cons first rest ih =>
      rw [cut]
      split
      · simp
      · next other => simp [ih, Ne.symm other]

/-- A delimiter in the front is the one that counts. -/
theorem cut_append_of_mem {delimiter : α} {front : List α} (member : delimiter ∈ front)
    (back : List α) : (cut delimiter (front ++ back)).1 = (cut delimiter front).1 := by
  induction front with
  | nil => cases member
  | cons first rest ih =>
      rw [List.cons_append, cut, cut]
      split
      · rfl
      · next other => rw [ih ((List.mem_cons.mp member).resolve_left (Ne.symm other))]

theorem cut_fst (delimiter : α) (text : List α) :
    (cut delimiter text).1 = text.takeWhile (· ≠ delimiter) := by
  induction text with
  | nil => rfl
  | cons first rest ih =>
      rw [cut, List.takeWhile_cons]
      split
      · next same => simp [same]
      · next other => simp [other, ih]

theorem cut_subset (delimiter : α) (text : List α) : (cut delimiter text).1 ⊆ text := by
  conv => rhs; rw [← cut_eq delimiter text]
  exact List.subset_append_left _ _

theorem cut_append_behind {delimiter : α} {front : List α} (bare : delimiter ∉ front)
    (back : Option (List α)) : cut delimiter (front ++ behind delimiter back) = (front, back) := by
  have same := (append_behind_inj (cut_bare delimiter _) bare).mp
    (cut_eq delimiter (front ++ behind delimiter back))
  exact Prod.ext same.1 same.2

theorem cut_append {delimiter : α} {front : List α} (bare : delimiter ∉ front) (back : List α) :
    cut delimiter (front ++ back) = (front ++ (cut delimiter back).1, (cut delimiter back).2) := by
  have inside : delimiter ∉ front ++ (cut delimiter back).1 := by
    simp [bare, cut_bare]
  conv => lhs; rw [← cut_eq delimiter back, ← List.append_assoc]
  exact cut_append_behind inside _

end Cut

/-- The components of a reference. -/
structure Reference where
  scheme : Option Bytes
  authority : Option Bytes
  path : Bytes
  query : Option Bytes
  fragment : Option Bytes

namespace Reference

section Parse

/-- A scheme ends in the first colon, if no slash stands in front of it. -/
def splitScheme (text : Bytes) : Option Bytes × Bytes :=
  let (name, rest) := cut 58 text
  if name = [] ∨ 47 ∈ name then (none, text)
  else
    match rest with
    | some rest => (some name, rest)
    | none => (none, text)

/-- An authority stands behind two slashes and ends in front of the next one. -/
def splitAuthority (text : Bytes) : Option Bytes × Bytes :=
  if [47, 47].isPrefixOf text then
    let (authority, rest) := cut 47 (text.drop 2)
    (some authority, behind 47 rest)
  else (none, text)

def parse (text : Bytes) : Reference :=
  let (front, fragment) := cut 35 text
  let (hierarchy, query) := cut 63 front
  let (scheme, rest) := splitScheme hierarchy
  let (authority, path) := splitAuthority rest
  { scheme, authority, path, query, fragment }

def schemeText : Option Bytes → Bytes
  | none => []
  | some scheme => scheme ++ [58]

def authorityText : Option Bytes → Bytes
  | none => []
  | some authority => 47 :: 47 :: authority

/-- What stands in front of the query and the fragment. -/
def hierarchy (reference : Reference) : Bytes :=
  schemeText reference.scheme ++ (authorityText reference.authority ++ reference.path)

def text (reference : Reference) : Bytes :=
  reference.hierarchy ++ behind 63 reference.query ++ behind 35 reference.fragment

/-- The components are such that they can be told apart again. -/
structure WellFormed (reference : Reference) : Prop where
  scheme : ∀ scheme ∈ reference.scheme, scheme ≠ [] ∧ 58 ∉ scheme ∧ 47 ∉ scheme
  authority : ∀ authority ∈ reference.authority,
    47 ∉ authority ∧ (reference.path = [] ∨ [47] <+: reference.path)
  relative : reference.scheme = none → reference.authority = none → ∀ name rest, 58 ∉ name →
    reference.path = name ++ 58 :: rest → name = [] ∨ 47 ∈ name
  rootless : reference.authority = none → ¬ [47, 47] <+: reference.path
  hierarchy : 63 ∉ reference.hierarchy ∧ 35 ∉ reference.hierarchy
  query : ∀ query ∈ reference.query, 35 ∉ query

theorem splitScheme_eq (text : Bytes) :
    schemeText (splitScheme text).1 ++ (splitScheme text).2 = text := by
  have whole := cut_eq (58 : UInt8) text
  rw [splitScheme]
  cases ends : cut 58 text with
  | mk name rest =>
      rw [ends] at whole
      dsimp only
      split
      · rfl
      · cases rest with
        | none => rfl
        | some rest => simpa [schemeText, behind] using whole

theorem splitAuthority_eq (text : Bytes) :
    authorityText (splitAuthority text).1 ++ (splitAuthority text).2 = text := by
  rw [splitAuthority]
  split
  · next here =>
      obtain ⟨rest, rfl⟩ := List.isPrefixOf_iff_prefix.mp here
      simp [authorityText, cut_eq]
  · rfl

/-- Every text is put together from its components. -/
theorem parse_text (text : Bytes) : (parse text).text = text := by
  rw [Reference.text, Reference.hierarchy]
  simp only [parse, splitAuthority_eq, splitScheme_eq, cut_eq]

theorem splitScheme_some {text scheme rest : Bytes} (split : splitScheme text = (some scheme, rest)) :
    scheme ≠ [] ∧ 58 ∉ scheme ∧ 47 ∉ scheme := by
  have bare := cut_bare (58 : UInt8) text
  rw [splitScheme] at split
  cases ends : cut 58 text with
  | mk name back =>
      rw [ends] at split bare
      dsimp only at split
      split at split
      · cases split
      · next named =>
          cases back with
          | none => cases split
          | some back =>
              cases split
              exact ⟨(not_or.mp named).1, bare, (not_or.mp named).2⟩

theorem splitScheme_none {text rest : Bytes} (split : splitScheme text = (none, rest)) :
    rest = text ∧ ∀ name back, 58 ∉ name → text = name ++ 58 :: back → name = [] ∨ 47 ∈ name := by
  have whole := splitScheme_eq text
  rw [split] at whole
  refine ⟨whole, fun name back bare shape => ?_⟩
  by_contra named
  have ends : cut 58 text = (name, some back) := by
    rw [shape]
    exact cut_append_behind bare (some back)
  simp [splitScheme, ends, named] at split

theorem splitAuthority_some {text authority path : Bytes}
    (split : splitAuthority text = (some authority, path)) :
    47 ∉ authority ∧ (path = [] ∨ [47] <+: path) := by
  have bare := cut_bare (47 : UInt8) (text.drop 2)
  rw [splitAuthority] at split
  split at split
  · cases split
    refine ⟨bare, ?_⟩
    cases (cut 47 (text.drop 2)).2 with
    | none => exact .inl rfl
    | some back => exact .inr (by simp [behind, List.cons_prefix_cons])
  · cases split

theorem splitAuthority_none {text path : Bytes} (split : splitAuthority text = (none, path)) :
    path = text ∧ ¬ [47, 47] <+: text := by
  rw [splitAuthority] at split
  split at split
  · cases split
  · next away =>
      cases split
      exact ⟨rfl, fun here => away (List.isPrefixOf_iff_prefix.mpr here)⟩

/-- The components of a text are well formed. -/
theorem parse_wellFormed (text : Bytes) : (parse text).WellFormed := by
  have whole : (parse text).hierarchy = (cut 63 (cut 35 text).1).1 := by
    simp only [hierarchy, parse, splitAuthority_eq, splitScheme_eq]
  have bare := cut_bare (35 : UInt8) text
  have queryBare := cut_eq (63 : UInt8) (cut 35 text).1 ▸ bare
  rw [List.mem_append, not_or] at queryBare
  cases schemes : splitScheme (cut 63 (cut 35 text).1).1 with
  | mk scheme rest =>
      cases authorities : splitAuthority rest with
      | mk authority path =>
          have parts : parse text = ⟨scheme, authority, path, (cut 63 (cut 35 text).1).2,
              (cut 35 text).2⟩ := by
            simp only [parse, schemes, authorities]
          rw [parts] at whole ⊢
          constructor
          case scheme =>
            rintro _ rfl
            exact splitScheme_some schemes
          case authority =>
            rintro _ rfl
            exact splitAuthority_some authorities
          case relative =>
            rintro rfl rfl
            obtain ⟨rfl, relative⟩ := splitScheme_none schemes
            obtain ⟨rfl, _⟩ := splitAuthority_none authorities
            exact relative
          case rootless =>
            rintro rfl
            obtain ⟨rfl, rootless⟩ := splitAuthority_none authorities
            exact rootless
          case hierarchy =>
            rw [whole]
            exact ⟨cut_bare 63 _, fun inside => bare (cut_subset 63 _ inside)⟩
          case query =>
            rintro _ same
            have part := queryBare.2
            rw [show (cut 63 (cut 35 text).1).2 = _ from same, behind, List.mem_cons, not_or] at part
            exact part.2

end Parse

section Dots

/-- A segment that stands for a place and is no name. -/
def Dots (segment : Bytes) : Prop := segment = [46] ∨ segment = [46, 46]

instance (segment : Bytes) : Decidable (Dots segment) := inferInstanceAs (Decidable (_ ∨ _))

/-- No segment of a path is `.` or `..`. -/
def Dotless (path : Bytes) : Prop := ∀ segment ∈ path.splitOn 47, ¬ Dots segment

instance (path : Bytes) : Decidable (Dotless path) := inferInstanceAs (Decidable (∀ _ ∈ _, _))

/-- Take the segments behind a slash one by one; `..` takes the last one back out. -/
def dropDots : List Bytes → List Bytes → List Bytes
  | out, [] => out.reverse
  | out, [last] =>
      if last = [46] then ([47] :: out).reverse
      else if last = [46, 46] then ([47] :: out.tail).reverse
      else ((47 :: last) :: out).reverse
  | out, segment :: next :: rest =>
      if segment = [46] then dropDots out (next :: rest)
      else if segment = [46, 46] then dropDots out.tail (next :: rest)
      else dropDots ((47 :: segment) :: out) (next :: rest)

def dropDotSegments : List Bytes → Bytes
  | [] => []
  | first :: rest => if Dots first then dropDotSegments rest else (dropDots [first] rest).flatten

def removeDotSegments (path : Bytes) : Bytes := dropDotSegments (path.splitOn 47)

theorem dropDots_of_dotless {segments : List Bytes} (dotless : ∀ segment ∈ segments, ¬ Dots segment)
    (out : List Bytes) : dropDots out segments = out.reverse ++ segments.map (47 :: ·) := by
  fun_induction dropDots out segments with
  | case1 out => simp
  | case2 out => exact absurd (.inl rfl) (dotless _ (.head _))
  | case3 out => exact absurd (.inr rfl) (dotless _ (.head _))
  | case4 out last => simp
  | case5 out next rest => exact absurd (.inl rfl) (dotless _ (.head _))
  | case6 out next rest => exact absurd (.inr rfl) (dotless _ (.head _))
  | case7 out segment next rest _ _ ih =>
      rw [ih fun other member => dotless other (.tail _ member)]
      simp

/-- Dots only make a path shorter. -/
theorem dropDots_length (out segments : List Bytes) :
    (dropDots out segments).flatten.length ≤ (out.flatten ++ segments.flatMap (47 :: ·)).length ∧
      ((∃ segment ∈ segments, Dots segment) →
        (dropDots out segments).flatten.length < (out.flatten ++ segments.flatMap (47 :: ·)).length) := by
  have tail : ∀ out : List Bytes, out.tail.flatten.length ≤ out.flatten.length := by
    intro out
    cases out <;> simp
  fun_induction dropDots out segments with
  | case1 out => simp
  | case2 out => simp
  | case3 out =>
      have := tail out
      simp at this ⊢
      omega
  | case4 out last single double => simp [Dots, single, double]
  | case5 out next rest ih =>
      simp at ih ⊢
      omega
  | case6 out next rest _ ih =>
      have := tail out
      simp at this ih ⊢
      omega
  | case7 out segment next rest single double ih =>
      obtain ⟨le, lt⟩ := ih
      simp only [List.flatMap_cons, List.flatten_cons, List.length_append, List.length_cons] at le lt ⊢
      refine ⟨by omega, fun ⟨other, member, dots⟩ => ?_⟩
      have later : other ∈ next :: rest := by
        refine (List.mem_cons.mp member).resolve_left ?_
        rintro rfl
        exact dots.elim single double
      have := lt ⟨other, later, dots⟩
      omega

theorem intercalate_slash (first : Bytes) (rest : List Bytes) :
    [47].intercalate (first :: rest) = first ++ rest.flatMap (47 :: ·) := by
  induction rest generalizing first with
  | nil => simp
  | cons next rest ih => simp [List.intercalate_cons_cons, ih]

theorem dropDotSegments_length (segments : List Bytes) :
    (dropDotSegments segments).length ≤ ([47].intercalate segments).length ∧
      ((∃ segment ∈ segments, Dots segment) →
        (dropDotSegments segments).length < ([47].intercalate segments).length) := by
  induction segments with
  | nil => simp [dropDotSegments]
  | cons first rest ih =>
      rw [dropDotSegments, intercalate_slash]
      split
      · next dots =>
          have shorter : (dropDotSegments rest).length < (first ++ rest.flatMap (47 :: ·)).length := by
            have filled : 0 < first.length := by
              obtain rfl | rfl := dots <;> simp
            cases rest with
            | nil => simpa [dropDotSegments] using filled
            | cons next rest =>
                have := ih.1
                rw [intercalate_slash] at this
                simp only [List.flatMap_cons, List.length_append, List.length_cons] at this ⊢
                omega
          exact ⟨shorter.le, fun _ => shorter⟩
      · next named =>
          obtain ⟨le, lt⟩ := dropDots_length [first] rest
          rw [List.flatten_singleton] at le lt
          refine ⟨le, fun ⟨segment, member, dots⟩ => lt ⟨segment, ?_, dots⟩⟩
          refine (List.mem_cons.mp member).resolve_left ?_
          rintro rfl
          exact named dots

theorem joined_segments (path : Bytes) : [47].intercalate (path.splitOn 47) = path :=
  List.intercalate_splitOn 47

theorem removeDotSegments_length (path : Bytes) : (removeDotSegments path).length ≤ path.length := by
  conv => rhs; rw [← joined_segments path]
  exact (dropDotSegments_length _).1

/-- Just a path without dots stays as it is. -/
theorem removeDotSegments_eq_iff (path : Bytes) : removeDotSegments path = path ↔ Dotless path := by
  have whole := joined_segments path
  constructor
  · intro same segment member dots
    have shorter := (dropDotSegments_length _).2 ⟨segment, member, dots⟩
    rw [whole, ← removeDotSegments, same] at shorter
    exact lt_irrefl _ shorter
  · intro dotless
    rw [removeDotSegments, Dotless] at *
    cases segments : path.splitOn 47 with
    | nil => exact absurd segments (List.splitOn_ne_nil _ _)
    | cons first rest =>
        rw [segments] at dotless whole
        rw [dropDotSegments, if_neg (dotless first (.head _)),
          dropDots_of_dotless fun segment member => dotless segment (.tail _ member), ← whole,
          intercalate_slash]
        simp [List.flatMap_def]

end Dots

section Resolve

/-- A path up to its last slash. -/
def directory (path : Bytes) : Bytes := path.rdropWhile (· ≠ 47)

theorem directory_append_of_mem {back : Bytes} (slash : 47 ∈ back) (front : Bytes) :
    directory (front ++ back) = front ++ directory back := by
  have found : (back.reverse.dropWhile (· ≠ 47)) ≠ [] := by
    simpa using slash
  rw [directory, directory, List.rdropWhile, List.rdropWhile, List.reverse_append,
    List.dropWhile_append, if_neg (by simpa using found)]
  simp

theorem directory_append_of_not_mem {back : Bytes} (slashless : 47 ∉ back) (front : Bytes) :
    directory (front ++ back) = directory front := by
  have absent : back.reverse.dropWhile (· ≠ 47) = [] := by
    rw [List.dropWhile_eq_nil_iff]
    intro byte member
    have other : byte ≠ 47 := fun same => slashless (same ▸ List.mem_reverse.mp member)
    simpa using other
  rw [directory, directory, List.rdropWhile, List.rdropWhile, List.reverse_append,
    List.dropWhile_append, absent]
  rfl

theorem directory_eq_iff {path : Bytes} (nonempty : path ≠ []) :
    directory path = path ↔ [47] <:+ path := by
  rw [directory, List.rdropWhile_eq_self_iff]
  constructor
  · intro last
    have slash : path.getLast nonempty = 47 := by simpa using last nonempty
    exact ⟨path.dropLast, slash ▸ List.dropLast_append_getLast nonempty⟩
  · rintro ⟨front, rfl⟩
    simp

theorem directory_initial (path : Bytes) : directory path <+: path :=
  List.rdropWhile_prefix _ path

def merge (base : Reference) (path : Bytes) : Bytes :=
  if base.authority.isSome ∧ base.path = [] then 47 :: path else directory base.path ++ path

/-- What a reference stands for, seen from a base. -/
def resolve (base reference : Reference) : Reference :=
  if reference.scheme.isSome then
    { reference with path := removeDotSegments reference.path }
  else if reference.authority.isSome then
    { reference with scheme := base.scheme, path := removeDotSegments reference.path }
  else if reference.path = [] then
    { base with
      query := if reference.query.isSome then reference.query else base.query
      fragment := reference.fragment }
  else
    { base with
      path := removeDotSegments
        (if [47].isPrefixOf reference.path then reference.path else base.merge reference.path)
      query := reference.query
      fragment := reference.fragment }

/-- A port is made of the digits behind a colon at the end of an authority. -/
def splitPort (authority : Bytes) : Bytes × Option Bytes :=
  let host := authority.rdropWhile Bytes.isDigit
  if [58].isSuffixOf host then (host.dropLast, some (authority.rtakeWhile Bytes.isDigit))
  else (authority, none)

/-- A port that is not given, or is empty, is the default one. -/
def withDefaultPort (default authority : Bytes) : Bytes :=
  let (host, port) := splitPort authority
  if port.all (· = []) then host ++ 58 :: default else authority

theorem splitPort_eq (authority : Bytes) :
    authority = (splitPort authority).1 ++ behind 58 (splitPort authority).2 ∧
      ∀ port ∈ (splitPort authority).2, 58 ∉ port := by
  rw [splitPort]
  split
  · next here =>
      obtain ⟨host, shape⟩ := List.isSuffixOf_iff_suffix.mp here
      have whole := List.rdropWhile_append_rtakeWhile (p := Bytes.isDigit) (l := authority)
      constructor
      · conv => lhs; rw [← whole, ← shape]
        simp [← shape, behind]
      · rintro _ ⟨⟩ colon
        exact absurd (List.mem_rtakeWhile_imp colon) (by decide)
  · exact ⟨by simp [behind], by simp⟩

end Resolve

end Reference

end TptAsync.Lib
