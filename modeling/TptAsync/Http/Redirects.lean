import TptAsync.Http.Pool
import TptAsync.Lib.Reference

set_option autoImplicit false

/-!
# Where a redirect leads

`resolve_redirect` goes by what a location begins with. That is compared with the reference that the
location is, resolved against the current target.
-/

namespace TptAsync.Http

open Lib Reference

/-- A path from the root, and perhaps a query. -/
structure OriginForm where
  path : Bytes
  query : Option Bytes
  absolute : [47] <+: path
  bare : 63 ∉ path ∧ 35 ∉ path
  queryBare : ∀ part ∈ query, 35 ∉ part

namespace OriginForm

def text (target : OriginForm) : Bytes := target.path ++ behind 63 target.query

/-- No slash stands in the query. -/
def Slashless (target : OriginForm) : Prop := ∀ part ∈ target.query, 47 ∉ part

theorem nonempty (target : OriginForm) : target.path ≠ [] := by
  intro empty
  have root := target.absolute
  simp [empty] at root

theorem slash_mem (target : OriginForm) : 47 ∈ target.text :=
  List.mem_append_left _ (target.absolute.subset (.head _))

end OriginForm

namespace HttpClient

/-- What is connected to for an authority: `https` has a default port. -/
def dialled (scheme : Option Bytes) (authority : Bytes) : Bytes :=
  if scheme.any (Bytes.eqIgnoreCase · (ascii "https")) then withDefaultPort (ascii "443") authority
  else authority

/-- An empty path is asked for as the root. -/
def rooted (path : Bytes) : Bytes := if path = [] then [47] else path

/-- The authority and the target of a location, if there is an authority. -/
def resolved (scheme authority : Bytes) (current : OriginForm) (location : Reference) :
    Option (Bytes × Bytes) :=
  let target := resolve ⟨some scheme, some authority, current.path, current.query, none⟩ location
  target.authority.map fun authority =>
    (dialled location.scheme authority, rooted target.path ++ behind 63 target.query)

/-- A colon stands only in front of a port, and the port is the default one. -/
structure DefaultPort (authority : Bytes) : Prop where
  host : 58 ∉ (splitPort authority).1
  port : ∀ port ∈ (splitPort authority).2, port = [] ∨ port = ascii "443"

/-- Nothing is to be left away, and a slash ends the authority. -/
structure Direct (location : Reference) : Prop where
  fragment : location.fragment = none
  dotless : Dotless location.path
  ended : location.path = [] → location.query = none

/-- Without a path, what stands behind the first slash of the query and the fragment happens to be the
query; the colon of the port ends the authority. -/
structure Accidental (location : Reference) (authority : Bytes) : Prop where
  path : location.path = []
  port : 58 ∈ authority
  behind : (cut 47 (behind 63 location.query ++ behind 35 location.fragment)).2.getD [] =
    behind 63 location.query

def AbsoluteRight (location : Reference) (scheme authority : Bytes) : Prop :=
  scheme = ascii "http" ∧ Direct location ∨
    scheme = ascii "https" ∧ DefaultPort authority ∧ (Direct location ∨ Accidental location authority)

def RelativeRight (current : OriginForm) (location : Reference) : Prop :=
  location.fragment = none ∧
    if location.path = [] then
      if location.query.isSome then [47] <:+ current.path ∧ current.Slashless
      else [47] <:+ current.text
    else if [47] <+: location.path then Dotless location.path
    else current.Slashless ∧ Dotless (directory current.path ++ location.path)

/-- The locations that are resolved as they should be. -/
def ResolvesRight (current : OriginForm) (location : Reference) : Prop :=
  match location.scheme, location.authority with
  | some scheme, some authority => AbsoluteRight location scheme authority
  | none, none => RelativeRight current location
  | some _, none | none, some _ => False

section Resolve

variable {authority target location rest : Bytes}

theorem splitAuthorityPath_eq (rest : Bytes) :
    splitAuthorityPath rest = ((cut 47 rest).1, 47 :: (cut 47 rest).2.getD []) := by
  rw [splitAuthorityPath]
  have whole := cut_eq (47 : UInt8) rest
  have bare := cut_bare (47 : UInt8) rest
  have absent : ∀ byte ∈ (cut 47 rest).1, decide (byte = 47) = false := by
    intro byte member
    exact decide_eq_false fun same => bare (same ▸ member)
  conv => lhs; rw [← whole]
  cases (cut 47 rest).2 with
  | none => simp [behind, List.findIdx?_eq_none_iff.mpr absent]
  | some path =>
      simp [behind, List.findIdx?_append, List.findIdx?_cons, List.findIdx?_eq_none_iff.mpr absent]

theorem resolveRedirect_http (rest : Bytes) :
    resolveRedirect authority target (ascii "http://" ++ rest) = splitAuthorityPath rest := by
  rw [resolveRedirect, if_pos (List.isPrefixOf_iff_prefix.mpr (List.prefix_append _ _)),
    List.drop_left]

theorem resolveRedirect_https (rest : Bytes) :
    resolveRedirect authority target (ascii "https://" ++ rest) =
      ((cut 58 (splitAuthorityPath rest).1).1 ++ 58 :: ascii "443", (splitAuthorityPath rest).2) := by
  have other : (ascii "http://").isPrefixOf (ascii "https://" ++ rest) = false := by
    simp [show ascii "http://" = [104, 116, 116, 112, 58, 47, 47] by decide, List.isPrefixOf,
      show ascii "https://" = [104, 116, 116, 112, 115, 58, 47, 47] by decide]
  have port : ascii ":443" = 58 :: ascii "443" := by decide
  rw [resolveRedirect, if_neg (by simp [other]),
    if_pos (List.isPrefixOf_iff_prefix.mpr (List.prefix_append _ _)), List.drop_left, cut_fst, port]

theorem findLast_slash (target : Bytes) : (47 ∈ target → ∃ slash, findLast [47] target = some slash ∧
    target.take slash ++ [47] = directory target) ∧ (47 ∉ target → findLast [47] target = none) := by
  induction target with
  | nil => simp [findLast]
  | cons first rest ih =>
      by_cases slash : 47 ∈ rest
      · obtain ⟨last, found, same⟩ := ih.1 slash
        refine ⟨fun _ => ⟨last + 1, by rw [findLast, found], ?_⟩, fun absent => absurd (.tail _ slash) absent⟩
        rw [List.take_succ_cons, List.cons_append, same]
        exact (directory_append_of_mem slash [first]).symm
      · have found := ih.2 slash
        by_cases here : first = 47
        · subst here
          refine ⟨fun _ => ⟨0, by rw [findLast, found]; rfl, ?_⟩, fun absent => absurd (.head _) absent⟩
          exact (directory_append_of_not_mem slash [47]).symm
        · refine ⟨fun member => absurd member (by simp [slash, Ne.symm here]), fun _ => ?_⟩
          rw [findLast, found]
          simp [Ne.symm here]

/-- Any other location is taken for a path. -/
theorem resolveRedirect_path (http : ¬ ascii "http://" <+: location)
    (https : ¬ ascii "https://" <+: location) (slash : 47 ∈ target) :
    resolveRedirect authority target location =
      (authority, if [47] <+: location then location else directory target ++ location) := by
  obtain ⟨last, found, same⟩ := (findLast_slash target).1 slash
  simp only [resolveRedirect, List.isPrefixOf_iff_prefix, http, https, if_false, found, same]
  split <;> rfl

end Resolve

section Paths

variable {path : Bytes} {query fragment : Option Bytes}

theorem rooted_length (path : Bytes) : (rooted (removeDotSegments path)).length ≤ path.length + 1 := by
  have shorter := removeDotSegments_length path
  rw [rooted]
  split
  · simp
  · omega

/-- A path that is sent on is right if it has no dots and there is no fragment. -/
theorem rooted_eq_iff (nonempty : path ≠ []) :
    rooted (removeDotSegments path) ++ behind 63 query = path ++ (behind 63 query ++ behind 35 fragment) ↔
      fragment = none ∧ Dotless path := by
  constructor
  · intro same
    have short : (rooted (removeDotSegments path)).length ≤ path.length := by
      have shorter := removeDotSegments_length path
      have filled := List.length_pos_of_ne_nil nonempty
      rw [rooted]
      split
      · exact filled
      · exact shorter
    obtain rfl : fragment = none := by
      cases fragment with
      | none => rfl
      | some fragment =>
          have lengths := congrArg List.length same
          simp only [List.length_append, behind, List.length_cons] at lengths
          omega
    rw [behind, List.append_nil, List.append_cancel_right_eq, rooted] at same
    refine ⟨rfl, (removeDotSegments_eq_iff path).mp ?_⟩
    split at same
    · next empty =>
        have dotless : Dotless [47] := by decide
        rw [← same, (removeDotSegments_eq_iff _).mpr dotless] at empty
        cases empty
    · exact same
  · rintro ⟨rfl, dotless⟩
    rw [(removeDotSegments_eq_iff path).mpr dotless, rooted, if_neg nonempty, behind, List.append_nil]

/-- A query or a fragment does not start with a slash or a colon. -/
theorem cut_behind_eq_nil {delimiter : UInt8} (other : delimiter ≠ 63 ∧ delimiter ≠ 35) :
    (cut delimiter (behind 63 query ++ behind 35 fragment)).1 = [] ↔ query = none ∧ fragment = none := by
  cases query with
  | none => cases fragment <;> simp [behind, cut, other.2.symm]
  | some query => simp [behind, cut, other.1.symm]

end Paths

section Ports

variable {authority : Bytes}

theorem splitPort_of_colonless (colonless : 58 ∉ authority) : splitPort authority = (authority, none) := by
  obtain ⟨shape, _⟩ := splitPort_eq authority
  cases ends : splitPort authority with
  | mk host port =>
      rw [ends] at shape
      cases port with
      | none => rw [shape, behind, List.append_nil]
      | some port => simp [shape, behind] at colonless

theorem DefaultPort.of_colonless (colonless : 58 ∉ authority) : DefaultPort authority := by
  have alone := splitPort_of_colonless colonless
  constructor
  case host => rwa [alone]
  case port => simp [alone]

/-- What stands in front of the first colon is the host of an authority with the default port. -/
theorem defaultPort_iff :
    (cut 58 authority).1 ++ 58 :: ascii "443" = withDefaultPort (ascii "443") authority ↔
      DefaultPort authority := by
  have digits : 58 ∉ ascii "443" := by decide
  have front := cut_bare (58 : UInt8) authority
  obtain ⟨shape, bare⟩ := splitPort_eq authority
  cases ends : splitPort authority with
  | mk host port =>
      rw [ends] at shape bare
      have first : (cut 58 authority).1 = host ↔ 58 ∉ host := by
        constructor
        · intro same
          exact same ▸ front
        · intro colonless
          rw [shape, cut_append_behind colonless]
      have given : DefaultPort authority ↔ 58 ∉ host ∧ ∀ digits ∈ port, digits = [] ∨ digits = ascii "443" := by
        constructor
        · rintro ⟨host, port⟩
          rw [ends] at host port
          exact ⟨host, port⟩
        · rintro ⟨host, port⟩
          exact ⟨by rwa [ends], by rwa [ends]⟩
      rw [given, withDefaultPort, ends]
      cases port with
      | none => simp [first]
      | some port =>
          by_cases empty : port = []
          · simp [empty, first]
          · simp only [Option.all_some, empty, decide_false, Bool.false_eq_true, if_false,
              Option.mem_some_iff, forall_eq', false_or]
            generalize (cut 58 authority).1 = before at front first
            rw [shape]
            constructor
            · intro same
              have colons := congrArg (List.count 58) same
              simp only [behind, List.count_append, List.count_cons_self, List.count_eq_zero.mpr front,
                List.count_eq_zero.mpr digits, List.count_eq_zero.mpr (bare port rfl)] at colons
              have colonless : 58 ∉ host := List.count_eq_zero.mp (by omega)
              rw [first.mpr colonless, behind, List.append_cancel_left_eq, List.cons.injEq] at same
              exact ⟨colonless, same.2.symm⟩
            · rintro ⟨colonless, rfl⟩
              rw [first.mpr colonless, behind]

end Ports

section Absolute

variable {location : Reference} {scheme authority name : Bytes}

/-- What stands behind the authority. -/
def trailing (location : Reference) : Bytes :=
  location.path ++ (behind 63 location.query ++ behind 35 location.fragment)

theorem direct_iff (nonempty : location.path ≠ []) :
    Direct location ↔ location.fragment = none ∧ Dotless location.path := by
  constructor
  · intro direct
    exact ⟨direct.fragment, direct.dotless⟩
  · intro holds
    obtain ⟨fragment, dotless⟩ := holds
    exact ⟨fragment, dotless, fun empty => absurd empty nonempty⟩

theorem direct_iff_of_empty (empty : location.path = []) :
    Direct location ↔ location.query = none ∧ location.fragment = none := by
  have dotless : Dotless [] := by decide
  constructor
  · intro direct
    exact ⟨direct.ended empty, direct.fragment⟩
  · intro holds
    obtain ⟨query, fragment⟩ := holds
    exact ⟨fragment, empty ▸ dotless, fun _ => query⟩

theorem splitAuthorityPath_of_path {rest : Bytes} (bare : 47 ∉ authority)
    (path : location.path = 47 :: rest) :
    splitAuthorityPath (authority ++ trailing location) = (authority, trailing location) := by
  have ends : cut 47 (authority ++ trailing location) = (authority, some (rest ++
      (behind 63 location.query ++ behind 35 location.fragment))) := by
    rw [trailing, path]
    exact cut_append_behind bare (some _)
  rw [splitAuthorityPath_eq, ends, trailing, path]
  rfl

theorem http_right (wellFormed : location.WellFormed) (named : location.authority = some authority) :
    (authority, rooted (removeDotSegments location.path) ++ behind 63 location.query) =
      splitAuthorityPath (authority ++ trailing location) ↔ Direct location := by
  obtain ⟨bare, ended⟩ := wellFormed.authority authority named
  cases path : location.path with
  | nil =>
      have root : rooted (removeDotSegments []) = [47] := by decide
      rw [direct_iff_of_empty path, trailing, path, List.nil_append, splitAuthorityPath_eq,
        cut_append bare, Prod.mk.injEq, List.self_eq_append_right, cut_behind_eq_nil (by decide), root]
      constructor
      · exact And.left
      · rintro ⟨query, fragment⟩
        simp [query, fragment, behind, cut]
  | cons first rest =>
      obtain ⟨_, shape⟩ := ended.resolve_left (by simp [path])
      obtain ⟨rfl, rfl⟩ := List.cons.inj (shape.trans path)
      rw [splitAuthorityPath_of_path bare path, direct_iff (by simp [path]), Prod.mk.injEq,
        eq_self, true_and, trailing, path]
      exact rooted_eq_iff (by simp)

theorem https_right (wellFormed : location.WellFormed) (named : location.authority = some authority) :
    (withDefaultPort (ascii "443") authority,
        rooted (removeDotSegments location.path) ++ behind 63 location.query) =
      ((cut 58 (splitAuthorityPath (authority ++ trailing location)).1).1 ++ 58 :: ascii "443",
        (splitAuthorityPath (authority ++ trailing location)).2) ↔
      DefaultPort authority ∧ (Direct location ∨ Accidental location authority) := by
  obtain ⟨bare, ended⟩ := wellFormed.authority authority named
  rw [Prod.mk.injEq, eq_comm]
  cases path : location.path with
  | nil =>
      have root : rooted (removeDotSegments []) = [47] := by decide
      rw [trailing, path, List.nil_append, splitAuthorityPath_eq, cut_append bare, root]
      by_cases colon : 58 ∈ authority
      · -- The colon of the port is the first one, whatever the query and the fragment hold.
        rw [cut_append_of_mem colon, defaultPort_iff]
        refine and_congr_right fun _ => ?_
        constructor
        · intro target
          exact .inr ⟨path, colon, (List.cons.inj target).2.symm⟩
        · rintro (direct | accidental)
          · obtain ⟨query, fragment⟩ := (direct_iff_of_empty path).mp direct
            simp [query, fragment, behind, cut]
          · rw [accidental.behind]
            rfl
      · have default := DefaultPort.of_colonless colon
        have alone : withDefaultPort (ascii "443") authority = authority ++ 58 :: ascii "443" := by
          rw [withDefaultPort, splitPort_of_colonless colon]
          rfl
        have fault : ¬ Accidental location authority := fun accidental => colon accidental.port
        rw [cut_append colon, alone, List.append_cancel_right_eq, List.append_right_eq_self,
          or_iff_left fault, and_iff_right default, direct_iff_of_empty path]
        cases location.query with
        | none => cases location.fragment <;> simp [behind, cut]
        | some query => simp [behind, cut]
  | cons first rest =>
      obtain ⟨_, shape⟩ := ended.resolve_left (by simp [path])
      obtain ⟨rfl, rfl⟩ := List.cons.inj (shape.trans path)
      have fault : ¬ Accidental location authority := fun accidental => by simpa [path] using accidental.path
      rw [splitAuthorityPath_of_path bare path, defaultPort_iff, or_iff_left fault,
        direct_iff (by simp [path]), trailing, path]
      exact and_congr_right fun _ => rooted_eq_iff (by simp)

/-- A reference with a scheme and an authority. -/
theorem text_absolute (schemed : location.scheme = some scheme) (named : location.authority = some authority) :
    location.text = scheme ++ 58 :: 47 :: 47 :: (authority ++ trailing location) := by
  simp [Reference.text, hierarchy, schemed, named, schemeText, authorityText, trailing]

theorem starts_iff {rest : Bytes} (bare : 58 ∉ name) (schemeBare : 58 ∉ scheme) :
    name ++ [58, 47, 47] <+: scheme ++ 58 :: 47 :: 47 :: rest ↔ name = scheme := by
  constructor
  · rintro ⟨more, same⟩
    have parts : name ++ behind 58 (some ([47, 47] ++ more)) =
        scheme ++ behind 58 (some (47 :: 47 :: rest)) := by
      simpa [behind] using same
    exact ((append_behind_inj bare schemeBare).mp parts).1
  · rintro rfl
    exact ⟨rest, by simp⟩

theorem absolute_right_iff (wellFormed : location.WellFormed) (schemed : location.scheme = some scheme)
    (named : location.authority = some authority) {current target : Bytes} (slash : 47 ∈ target) :
    (dialled (some scheme) authority,
        rooted (removeDotSegments location.path) ++ behind 63 location.query) =
      resolveRedirect current target location.text ↔ AbsoluteRight location scheme authority := by
  obtain ⟨filled, bare, slashless⟩ := wellFormed.scheme scheme schemed
  have http : ascii "http://" = ascii "http" ++ [58, 47, 47] := by decide
  have https : ascii "https://" = ascii "https" ++ [58, 47, 47] := by decide
  have different : ascii "https" ≠ ascii "http" := by decide
  have text := text_absolute schemed named
  rw [AbsoluteRight]
  by_cases isHttp : scheme = ascii "http"
  · have plain : dialled (some scheme) authority = authority := by
      rw [isHttp]
      exact if_neg (by decide)
    have shape : location.text = ascii "http://" ++ (authority ++ trailing location) := by
      rw [text, isHttp, http]
      simp
    rw [plain, shape, resolveRedirect_http, http_right wellFormed named]
    simp [isHttp, different.symm]
  · by_cases isHttps : scheme = ascii "https"
    · have port : dialled (some scheme) authority = withDefaultPort (ascii "443") authority := by
        rw [isHttps]
        exact if_pos (by decide)
      have shape : location.text = ascii "https://" ++ (authority ++ trailing location) := by
        rw [text, isHttps, https]
        simp
      rw [port, shape, resolveRedirect_https, https_right wellFormed named]
      simp [isHttps, different]
    · -- Any other scheme is taken for a directory.
      have other : ∀ name, 58 ∉ name → scheme ≠ name → ¬ name ++ [58, 47, 47] <+: location.text := by
        intro name colonless different starts
        rw [text, starts_iff colonless bare] at starts
        exact different starts.symm
      have rootless : ¬ [47] <+: location.text := by
        cases scheme with
        | nil => exact absurd rfl filled
        | cons first rest =>
            rw [text, List.cons_append, List.cons_prefix_cons]
            rintro ⟨rfl, _⟩
            exact slashless (.head _)
      rw [resolveRedirect_path (http ▸ other _ (by decide) isHttp) (https ▸ other _ (by decide) isHttps)
        slash, if_neg rootless, Prod.mk.injEq]
      simp only [isHttp, isHttps, false_and, or_self, iff_false, not_and]
      intro _ same
      have lengths := congrArg List.length same
      have short := rooted_length location.path
      rw [text] at lengths
      simp only [List.length_append, List.length_cons, trailing] at lengths
      omega

end Absolute

section Relative

variable {location : Reference} {current : OriginForm}

theorem directory_text (slashless : current.Slashless) :
    directory current.text = directory current.path := by
  rw [OriginForm.text]
  cases query : current.query with
  | none => rw [behind, List.append_nil]
  | some part =>
      have absent : 47 ∉ 63 :: part := by simp [slashless part query]
      exact directory_append_of_not_mem absent _

theorem length_directory_text (slashed : ¬ current.Slashless) :
    current.path.length + 2 ≤ (directory current.text).length := by
  simp only [OriginForm.Slashless, not_forall, not_not] at slashed
  obtain ⟨part, query, slash⟩ := slashed
  have found : directory part ≠ [] := by
    rw [directory, ne_eq, List.rdropWhile_eq_nil_iff]
    intro absent
    simpa using absent 47 slash
  have shape : current.text = (current.path ++ [63]) ++ part := by
    rw [OriginForm.text, show current.query = some part from query, behind]
    simp
  have filled := List.length_pos_of_ne_nil found
  rw [shape, directory_append_of_mem slash, List.length_append, List.length_append,
    List.length_singleton]
  omega

/-- A query replaces that of the current target. -/
theorem query_right_iff {query : Bytes} {fragment : Option Bytes} :
    current.path ++ behind 63 (some query) =
        directory current.text ++ (behind 63 (some query) ++ behind 35 fragment) ↔
      fragment = none ∧ [47] <:+ current.path ∧ current.Slashless := by
  by_cases slashless : current.Slashless
  · have bare : 63 ∉ directory current.path := fun inside =>
      current.bare.1 ((directory_initial _).subset inside)
    have shape : behind 63 (some query) ++ behind 35 fragment =
        behind 63 (some (query ++ behind 35 fragment)) := rfl
    rw [directory_text slashless, shape, append_behind_inj current.bare.1 bare, Option.some.injEq,
      List.self_eq_append_right, eq_comm, directory_eq_iff current.nonempty]
    cases fragment <;> simp [behind, slashless]
  · simp only [slashless, and_false, iff_false]
    intro same
    have lengths := congrArg List.length same
    have long := length_directory_text slashless
    simp only [List.length_append] at lengths
    omega

/-- Without a path and a query, the target stays as it is. -/
theorem same_right_iff {fragment : Option Bytes} :
    current.text = directory current.text ++ behind 35 fragment ↔
      fragment = none ∧ [47] <:+ current.text := by
  cases fragment with
  | none =>
      have filled : current.text ≠ [] := List.ne_nil_of_mem current.slash_mem
      rw [behind, List.append_nil, eq_comm, directory_eq_iff filled]
      simp
  | some fragment =>
      have bare : 35 ∉ current.text := by
        rw [OriginForm.text, List.mem_append, not_or]
        refine ⟨current.bare.2, ?_⟩
        cases query : current.query with
        | none => simp [behind]
        | some part => simp [behind, current.queryBare part query]
      refine iff_of_false (fun same => bare ?_) (by simp)
      rw [same]
      simp [behind]

/-- A path is put in the place of what is behind the last slash. -/
theorem merge_right_iff {path : Bytes} {query fragment : Option Bytes} (nonempty : path ≠ []) :
    rooted (removeDotSegments (directory current.path ++ path)) ++ behind 63 query =
        directory current.text ++ (path ++ (behind 63 query ++ behind 35 fragment)) ↔
      fragment = none ∧ current.Slashless ∧ Dotless (directory current.path ++ path) := by
  by_cases slashless : current.Slashless
  · rw [directory_text slashless, ← List.append_assoc, rooted_eq_iff (by simp [nonempty])]
    simp [slashless]
  · simp only [slashless, false_and, and_false, iff_false]
    intro same
    have lengths := congrArg List.length same
    have long := length_directory_text slashless
    have short := rooted_length (directory current.path ++ path)
    have shorter := (directory_initial current.path).length_le
    simp only [List.length_append] at lengths short
    omega

/-- What does not start with a scheme does not start like one. -/
theorem not_starts (wellFormed : location.WellFormed) (schemeless : location.scheme = none)
    (unnamed : location.authority = none) (name : Bytes) (filled : name ≠ [])
    (bare : 58 ∉ name ∧ 47 ∉ name) (plain : 63 ∉ name ∧ 35 ∉ name) :
    ¬ name ++ [58, 47, 47] <+: trailing location := by
  have away : ∀ more, location.path ≠ name ++ 58 :: more := by
    intro more shape
    exact (wellFormed.relative schemeless unnamed name more bare.1 shape).elim filled bare.2
  intro starts
  rcases prefix_append_cases starts with ⟨⟨more, inside⟩, _⟩ | ⟨rest, shape, starts⟩
  · rw [List.append_assoc] at inside
    exact away _ inside.symm
  · cases rest with
    | nil =>
        rw [List.append_nil] at shape
        exact away _ shape.symm
    | cons first rest =>
        have inside : first ∈ name ++ [58, 47, 47] := by
          rw [shape]
          simp
        have delimiter : first = 63 ∨ first = 35 := by
          cases query : location.query with
          | some query =>
              rw [query, behind, List.cons_append, List.cons_prefix_cons] at starts
              exact .inl starts.1
          | none =>
              cases fragment : location.fragment with
              | none => simp [query, fragment, behind] at starts
              | some fragment =>
                  rw [query, fragment, behind, behind, List.nil_append, List.cons_prefix_cons] at starts
                  exact .inr starts.1
        rcases delimiter with rfl | rfl
        · simp [plain.1] at inside
        · simp [plain.2] at inside

theorem relative_right_iff (wellFormed : location.WellFormed) (schemeless : location.scheme = none)
    (unnamed : location.authority = none) {scheme authority : Bytes} :
    resolved scheme authority current location =
      some (resolveRedirect authority current.text location.text) ↔ RelativeRight current location := by
  have text : location.text = trailing location := by
    simp [Reference.text, hierarchy, schemeless, unnamed, schemeText, authorityText, trailing]
  have http : ¬ ascii "http://" <+: location.text := by
    rw [text]
    exact not_starts wellFormed schemeless unnamed (ascii "http") (by decide) (by decide) (by decide)
  have https : ¬ ascii "https://" <+: location.text := by
    rw [text]
    exact not_starts wellFormed schemeless unnamed (ascii "https") (by decide) (by decide) (by decide)
  have seen : resolved scheme authority current location = some (authority, rooted
      (if location.path = [] then current.path
        else removeDotSegments (if [47] <+: location.path then location.path
          else directory current.path ++ location.path)) ++
      behind 63 (if location.path = [] ∧ location.query = none then current.query else location.query)) := by
    have rooted : ([47].isPrefixOf location.path = true) = ([47] <+: location.path) :=
      propext List.isPrefixOf_iff_prefix
    simp only [resolved, resolve, merge, schemeless, unnamed, rooted, Option.isSome_none,
      Bool.false_eq_true, if_false, Option.isSome_some, current.nonempty, and_false]
    by_cases empty : location.path = []
    · cases location.query <;> simp [empty, dialled]
    · simp [empty, dialled]
  rw [resolveRedirect_path http https current.slash_mem, seen, Option.some.injEq, Prod.mk.injEq,
    eq_self, true_and, RelativeRight, text, trailing]
  by_cases empty : location.path = []
  · have rootless : ¬ [47] <+: behind 63 location.query ++ behind 35 location.fragment := by
      cases location.query with
      | some query => simp [behind, List.cons_prefix_cons]
      | none => cases location.fragment <;> simp [behind, List.cons_prefix_cons]
    have filled : rooted current.path = current.path := if_neg current.nonempty
    simp only [empty, if_true, List.nil_append, rootless, if_false, filled, true_and]
    cases location.query with
    | some query => simpa using query_right_iff
    | none => exact same_right_iff
  · have rootText : [47] <+: location.path ++ (behind 63 location.query ++ behind 35 location.fragment) ↔
        [47] <+: location.path := by
      cases path : location.path with
      | nil => exact absurd path empty
      | cons first rest => simp [List.cons_prefix_cons]
    simp only [empty, if_false, rootText, false_and]
    by_cases root : [47] <+: location.path
    · simp only [root, if_true]
      exact rooted_eq_iff empty
    · simp only [root, if_false]
      exact merge_right_iff empty

end Relative

/-- A location leads where it should exactly if it is one of those that `resolve_redirect` provides
for. -/
theorem redirect_resolved_iff (scheme authority : Bytes) (current : OriginForm) (location : Bytes) :
    resolved scheme authority current (parse location) =
        some (resolveRedirect authority current.text location) ↔
      ResolvesRight current (parse location) := by
  have wellFormed := parse_wellFormed location
  have text := parse_text location
  generalize parse location = location' at wellFormed text ⊢
  rw [← text, ResolvesRight]
  cases schemed : location'.scheme with
  | some scheme' =>
      cases named : location'.authority with
      | some authority' =>
          dsimp only
          rw [← @absolute_right_iff _ _ _ wellFormed schemed named authority _ current.slash_mem]
          simp [resolved, resolve, schemed, named]
      | none => simp [resolved, resolve, schemed, named]
  | none =>
      cases named : location'.authority with
      | some authority' =>
          -- A network path is taken for a path on the current host.
          have shape : location'.text = 47 :: 47 :: (authority' ++ trailing location') := by
            simp [Reference.text, hierarchy, schemed, named, schemeText, authorityText, trailing]
          have away : ∀ name, name.head? ≠ some 47 → name ≠ [] → ¬ name <+: location'.text := by
            intro name other filled starts
            cases name with
            | nil => exact filled rfl
            | cons first rest =>
                rw [shape, List.cons_prefix_cons] at starts
                exact other (congrArg some starts.1)
          have root : [47] <+: location'.text := by simp [shape, List.cons_prefix_cons]
          rw [resolveRedirect_path (away _ (by decide) (by decide)) (away _ (by decide) (by decide))
            current.slash_mem, if_pos root]
          refine iff_of_false (fun same => ?_) id
          have target := congrArg (Option.map fun ends => ends.2.length) same
          have short := rooted_length location'.path
          simp only [resolved, resolve, schemed, named, shape, trailing, Option.isSome_none,
            Option.isSome_some, Bool.false_eq_true, if_false, if_true, Option.map_some, List.length_append,
            List.length_cons, Option.some.injEq] at target
          omega
      | none => exact relative_right_iff wellFormed schemed named

theorem slashed_bare : 63 ∉ ascii "/docs/a" ∧ 35 ∉ ascii "/docs/a" := by decide

theorem slashed_queryBare : ∀ part ∈ some (ascii "next=/b"), 35 ∉ part := by
  rintro _ ⟨⟩
  decide

/-- A target with a slash in its query. -/
def slashed : OriginForm :=
  ⟨ascii "/docs/a", some (ascii "next=/b"), ⟨ascii "docs/a", rfl⟩, slashed_bare, slashed_queryBare⟩

/-- A port is replaced, a host is taken for a path and a query for a part of the host, a relative path
goes behind the query, and a fragment is sent. -/
theorem redirects_misresolved :
    ¬ ∃ location ∈ ["https://h:8443/", "https://[::1]/", "//other/path", "http://h?x", "c", "?x", "/p#f",
        "/p/../q"].map ascii,
      resolved (ascii "http") (ascii "h") slashed (parse location) =
        some (resolveRedirect (ascii "h") slashed.text location) := by
  decide +kernel

end HttpClient

end TptAsync.Http
