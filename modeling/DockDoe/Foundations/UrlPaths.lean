import DockDoe.Foundations.Cuts
import DockDoe.Foundations.PercentCoding

/-! Parsing of `http` and `https` URLs, and which segments survive it.
Whatever parsing removes makes a path shorter and whatever it splits gives it more segments,
so a path that is read as some segments was written as them.
-/

namespace UrlPaths

open PercentCoding

/-- Removed from all of a URL. -/
def isTabOrNewline (c : Char) : Bool :=
  c == '\t' || c == '\n' || c == '\r'

/-- A C0 control or a space, removed from both ends of a URL. -/
def isC0OrSpace (c : Char) : Bool :=
  c.toNat ≤ 0x20

/-- Where a segment of a path ends. -/
def isSeparator (c : Char) : Bool :=
  c == '/' || c == '\\'

/-- Where a path ends. -/
def endsPath (c : Char) : Bool :=
  c == '?' || c == '#'

/-- The path percent-encode set: controls, non-ASCII, and space, quote, number sign, angle
brackets, question mark, circumflex, grave accent and braces.
-/
def pathEncodes (c : Char) : Bool :=
  c.toNat ≤ 0x1F || 0x7E < c.toNat
  || [0x20, 0x22, 0x23, 0x3C, 0x3E, 0x3F, 0x5E, 0x60, 0x7B, 0x7D].contains c.toNat

def isSingleDot (segment : List Char) : Bool :=
  [".".toList, "%2e".toList].contains (segment.map Char.toLower)

def isDoubleDot (segment : List Char) : Bool :=
  ["..".toList, ".%2e".toList, "%2e.".toList, "%2e%2e".toList].contains
    (segment.map Char.toLower)

/-- The segments of a path after those that have been read, the last of them first. -/
def resolve (done : List (List Char)) : List (List Char) → List (List Char)
  | [] => done.reverse
  | [last] =>
      if isDoubleDot last then
        ([] :: done.tail).reverse
      else if isSingleDot last then
        ([] :: done).reverse
      else
        (encode pathEncodes last :: done).reverse
  | segment :: next :: rest =>
      if isDoubleDot segment then
        resolve done.tail (next :: rest)
      else if isSingleDot segment then
        resolve done (next :: rest)
      else
        resolve (encode pathEncodes segment :: done) (next :: rest)

/-- The path of what follows an authority. -/
def parsePath (s : List Char) : List (List Char) :=
  let written := s.takeWhile (!endsPath ·)
  let inside :=
    match written with
    | [] => []
    | c :: rest => if isSeparator c then rest else written
  resolve [] (inside.splitOnP isSeparator)

/-- The query of what follows an authority. -/
def parseQuery (s : List Char) : Option (List Char) :=
  (Cuts.cut ['?'] (s.takeWhile (· ≠ '#'))).map Prod.snd

structure Url where
  scheme : List Char
  authority : List Char
  path : List (List Char)
  query : Option (List Char)

/-- The URL of an absolute path at the authority of another. -/
def Url.withPath (url : Url) (s : List Char) : Url :=
  { url with path := parsePath s, query := parseQuery s }

def endsAuthority (c : Char) : Bool :=
  isSeparator c || endsPath c

/-- A text without what a URL does not keep of it. -/
def trimmed (s : List Char) : List Char :=
  ((s.dropWhile isC0OrSpace).rdropWhile isC0OrSpace).filter (!isTabOrNewline ·)

/-- Parse a URL. Its authority is kept as it is written. -/
def parse (s : List Char) : Option Url :=
  match Cuts.cut "://".toList (trimmed s) with
  | none => none
  | some (scheme, rest) =>
      if scheme ≠ "http".toList ∧ scheme ≠ "https".toList then
        none
      else
        let authority := rest.takeWhile (!endsAuthority ·)
        let after := rest.dropWhile (!endsAuthority ·)
        if authority.isEmpty then
          none
        else
          some { scheme, authority, path := parsePath after, query := parseQuery after }

/-- A segment that resolving keeps, and that stands for itself. -/
def isKept (segment : List Char) : Bool :=
  !isSingleDot segment && !isDoubleDot segment && !hasEscape segment

/-- A text that is one segment of a path as it is. -/
def isPlain (segment : List Char) : Bool :=
  segment.all (fun c => !isSeparator c && !endsPath c && !isTabOrNewline c) && isKept segment

section Weights

/-- The bytes of some segments and their separators. -/
def weight (segments : List (List Char)) : ℕ :=
  (segments.map (fun segment => (utf8 segment).length + 1)).sum

/-- The bytes that some segments stand for, and their separators. -/
def decodedWeight (path : List (List Char)) : ℕ :=
  (path.map (fun segment => (decode segment).length + 1)).sum

theorem weight_cons (segment : List Char) (rest : List (List Char))
    : weight (segment :: rest) = (utf8 segment).length + 1 + weight rest := by
  simp [weight]

theorem decodedWeight_cons (segment : List Char) (rest : List (List Char))
    : decodedWeight (segment :: rest) = (decode segment).length + 1 + decodedWeight rest := by
  simp [decodedWeight]

theorem decodedWeight_reverse (path : List (List Char))
    : decodedWeight path.reverse = decodedWeight path := by
  rw [decodedWeight, List.map_reverse, List.sum_reverse, decodedWeight]

theorem decodedWeight_tail (path : List (List Char))
    : decodedWeight path.tail ≤ decodedWeight path := by
  cases path with
  | nil => exact le_refl _
  | cons first rest =>
      rw [List.tail_cons, decodedWeight_cons]
      exact Nat.le_add_left _ _

theorem pathEncodes_leavesEscapes : LeavesEscapes pathEncodes where
  percent := by decide
  alphanum := by
    intro c isAlphanum
    have bounds
        : (65 ≤ c.toNat ∧ c.toNat ≤ 90)
          ∨ (97 ≤ c.toNat ∧ c.toNat ≤ 122)
          ∨ (48 ≤ c.toNat ∧ c.toNat ≤ 57) := by
      simpa [Char.isAlphanum, Char.isAlpha, Char.isUpper, Char.isLower, Char.isDigit,
        UInt32.le_iff_toNat_le, or_assoc] using isAlphanum
    simp [pathEncodes]
    omega

theorem decode_encoded (segment : List Char)
    : decode (encode pathEncodes segment) = decode segment :=
  decode_encode pathEncodes_leavesEscapes segment

end Weights

section Resolve

theorem utf8_pos {s : List Char} (nonempty : s ≠ []) : 0 < (utf8 s).length := by
  cases s with
  | nil => exact absurd rfl nonempty
  | cons c rest =>
      have first := List.length_pos_of_ne_nil (String.utf8EncodeChar_ne_nil (c := c))
      simp only [utf8, List.flatMap_cons, List.length_append]
      omega

/-- Segments are dots only if they have some. -/
theorem dots_pos {segment : List Char}
    (dots : isSingleDot segment = true ∨ isDoubleDot segment = true)
    : 0 < (utf8 segment).length := by
  apply utf8_pos
  intro empty
  subst empty
  revert dots
  decide

/-- Resolving loses weight with every segment that it does not keep. By induction on the
resolution: a dot segment is dropped, a double one drops the segment before it too, and the last
one leaves an empty segment.
-/
theorem resolve_weight (done segments : List (List Char))
    : decodedWeight (resolve done segments) ≤ decodedWeight done + weight segments
      ∧ ((∃ segment ∈ segments, isKept segment = false)
        → decodedWeight (resolve done segments) < decodedWeight done + weight segments) := by
  fun_induction resolve done segments with
  | case1 done => simp [decodedWeight_reverse, weight]
  | case2 done last double =>
      have lighter := decodedWeight_tail done
      have longer := dots_pos (Or.inr double)
      rw [decodedWeight_reverse, decodedWeight_cons, weight_cons]
      simp only [decode, List.length_nil, weight, List.map_nil, List.sum_nil]
      omega
  | case3 done last notDouble single =>
      have longer := dots_pos (Or.inl single)
      rw [decodedWeight_reverse, decodedWeight_cons, weight_cons]
      simp only [decode, List.length_nil, weight, List.map_nil, List.sum_nil]
      omega
  | case4 done last notDouble notSingle =>
      obtain ⟨atMost, fewer⟩ := decode_length last
      rw [decodedWeight_reverse, decodedWeight_cons, weight_cons, decode_encoded]
      refine ⟨by omega, ?_⟩
      intro h
      obtain ⟨segment, member, lost⟩ := h
      rw [List.mem_singleton.mp member] at lost
      have escapes : hasEscape last = true := by simpa [isKept, notDouble, notSingle] using lost
      have less := fewer escapes
      omega
  | case5 done segment next rest double ih =>
      have lighter := decodedWeight_tail done
      have longer := dots_pos (Or.inr double)
      rw [weight_cons]
      omega
  | case6 done segment next rest notDouble single ih =>
      have longer := dots_pos (Or.inl single)
      rw [weight_cons]
      omega
  | case7 done segment next rest notDouble notSingle ih =>
      obtain ⟨atMost, fewer⟩ := decode_length segment
      rw [decodedWeight_cons, decode_encoded] at ih
      rw [weight_cons]
      refine ⟨by omega, ?_⟩
      intro h
      obtain ⟨other, member, lost⟩ := h
      rcases List.mem_cons.mp member with same | inRest
      · rw [same] at lost
        have escapes : hasEscape segment = true := by
          simpa [isKept, notDouble, notSingle] using lost
        have less := fewer escapes
        omega
      · have less := ih.2 ⟨other, inRest, lost⟩
        omega

/-- Segments that are kept are resolved one by one, by induction on the resolution. -/
theorem resolve_kept {segments : List (List Char)} (done : List (List Char))
    (kept : ∀ segment ∈ segments, isKept segment = true)
    : resolve done segments = done.reverse ++ segments.map (encode pathEncodes) := by
  fun_induction resolve done segments with
  | case1 done => simp
  | case2 done last double => simp [isKept, double] at kept
  | case3 done last notDouble single => simp [isKept, single] at kept
  | case4 done last notDouble notSingle => simp
  | case5 done segment next rest double ih => simp [isKept, double] at kept
  | case6 done segment next rest notDouble single ih => simp [isKept, single] at kept
  | case7 done segment next rest notDouble notSingle ih =>
      rw [ih (fun other member => kept other (List.mem_cons_of_mem _ member))]
      simp

end Resolve

section Separators

/-- A separator is one byte. -/
theorem utf8_separator {c : Char} (separator : isSeparator c = true)
    : (String.utf8EncodeChar c).length = 1 := by
  simp only [isSeparator, Bool.or_eq_true, beq_iff_eq] at separator
  rcases separator with slash | backslash
  · rw [slash]
    rfl
  · rw [backslash]
    rfl

/-- Splitting a text keeps its bytes: each separator is one, and each segment weighs one more
than it has. By induction on the text.
-/
theorem weight_splitOnP (s : List Char)
    : weight (s.splitOnP isSeparator) = (utf8 s).length + 1 := by
  induction s with
  | nil => rfl
  | cons c rest ih =>
      rw [List.splitOnP_cons_eq_if_modifyHead]
      split
      next separator =>
        rw [weight_cons, ih]
        simp only [utf8, List.flatMap_nil, List.flatMap_cons, List.length_append,
          utf8_separator separator, List.length_nil]
        omega
      next other =>
        cases split : rest.splitOnP isSeparator with
        | nil => exact absurd split (List.splitOnP_ne_nil _ _)
        | cons first more =>
            rw [split, weight_cons] at ih
            rw [List.modifyHead_cons, weight_cons]
            simp only [utf8, List.flatMap_cons, List.length_append] at ih ⊢
            omega

/-- Joining segments keeps their weight, by induction on the segments. -/
theorem weight_intercalate {segments : List (List Char)} (nonempty : segments ≠ [])
    : weight segments = (utf8 (['/'].intercalate segments)).length + 1 := by
  induction segments with
  | nil => exact absurd rfl nonempty
  | cons first rest ih =>
      cases rest with
      | nil => simp [weight, List.intercalate_singleton]
      | cons second more =>
          rw [weight_cons, ih (List.cons_ne_nil _ _), List.intercalate_cons_cons]
          have slash : (String.utf8EncodeChar '/').length = 1 := rfl
          simp only [utf8, List.flatMap_append, List.flatMap_singleton, List.length_append, slash]
          omega

end Separators

/-- The scheme and the authority in front of a path. -/
structure Origin where
  secure : Bool
  authority : List Char
  nonempty : authority ≠ []
  clean : ∀ c ∈ authority, endsAuthority c = false ∧ isC0OrSpace c = false

namespace Origin

variable (origin : Origin)

def scheme : List Char :=
  if origin.secure then "https".toList else "http".toList

def text : List Char :=
  origin.scheme ++ "://".toList ++ origin.authority

end Origin

section Origins

variable (origin : Origin)

/-- What parsing keeps of a path. -/
def pathText (s : List Char) : List Char :=
  ((s.rdropWhile isC0OrSpace).filter (!isTabOrNewline ·)).takeWhile (!endsPath ·)

theorem isC0OrSpace_of_isTabOrNewline {c : Char} (tab : isTabOrNewline c = true)
    : isC0OrSpace c = true := by
  simp only [isTabOrNewline, Bool.or_eq_true, beq_iff_eq] at tab
  rcases tab with (rfl | rfl) | rfl <;> rfl

/-- Nothing of an origin would be trimmed: its scheme is fixed, and its authority is clean. -/
theorem text_clean : ∀ c ∈ origin.text, isC0OrSpace c = false := by
  have fixed : ("http://".toList ++ "https://".toList).all (!isC0OrSpace ·) = true := rfl
  rw [List.all_eq_true] at fixed
  intro c member
  rw [Origin.text, Origin.scheme, List.mem_append] at member
  rcases member with inScheme | inAuthority
  · have clean : (!isC0OrSpace c) = true := by
      apply fixed c
      rw [List.mem_append]
      cases secure : origin.secure with
      | true => exact Or.inr (by simpa [secure] using inScheme)
      | false => exact Or.inl (by simpa [secure] using inScheme)
    simpa using clean
  · exact (origin.clean c inAuthority).2

theorem trimmed_origin (s : List Char)
    : trimmed (origin.text ++ '/' :: s)
      = origin.text ++ '/' :: (s.rdropWhile isC0OrSpace).filter (!isTabOrNewline ·) := by
  have clean := text_clean origin
  have starts : (origin.text ++ '/' :: s).dropWhile isC0OrSpace = origin.text ++ '/' :: s := by
    cases text : origin.text with
    | nil => rfl
    | cons first rest =>
        have stays := clean first (text ▸ List.mem_cons_self)
        rw [List.cons_append, List.dropWhile_cons_of_neg (by simp [stays])]
  have kept : origin.text.filter (!isTabOrNewline ·) = origin.text := by
    rw [List.filter_eq_self]
    intro c member
    by_contra tab
    have control := isC0OrSpace_of_isTabOrNewline (by simpa using tab)
    rw [clean c member] at control
    cases control
  rw [trimmed, starts, Cuts.rdropWhile_append_of_last rfl, List.filter_append, kept,
    List.filter_cons_of_pos rfl]

theorem parsePath_slash (s : List Char)
    : parsePath ('/' :: s) = resolve [] ((s.takeWhile (!endsPath ·)).splitOnP isSeparator) := by
  have written : ('/' :: s).takeWhile (!endsPath ·) = '/' :: s.takeWhile (!endsPath ·) := rfl
  rw [parsePath, written]
  rfl

/-- The parts of a URL with a path behind an origin. -/
theorem parse_origin (s : List Char)
    : ∃ query,
        parse (origin.text ++ '/' :: s)
          = some {
              scheme := origin.scheme
              authority := origin.authority
              path := resolve [] ((pathText s).splitOnP isSeparator)
              query } := by
  have parts (rest : List Char)
      : Cuts.cut "://".toList (origin.text ++ rest)
        = some (origin.scheme, origin.authority ++ rest) := by
    rw [Origin.text, Origin.scheme]
    cases origin.secure <;> rfl
  have web : ¬ (origin.scheme ≠ "http".toList ∧ origin.scheme ≠ "https".toList) := by
    rw [Origin.scheme]
    cases origin.secure <;> simp
  have inside : ∀ c ∈ origin.authority, (!endsAuthority c) = true := by
    intro c member
    rw [(origin.clean c member).1, Bool.not_false]
  have authority (rest : List Char)
      : (origin.authority ++ '/' :: rest).takeWhile (!endsAuthority ·) = origin.authority := by
    rw [List.takeWhile_append_of_pos inside]
    exact List.append_nil _
  have after (rest : List Char)
      : (origin.authority ++ '/' :: rest).dropWhile (!endsAuthority ·) = '/' :: rest := by
    rw [List.dropWhile_append_of_pos inside]
    rfl
  have present : ¬ origin.authority.isEmpty = true := by
    rw [List.isEmpty_iff]
    exact origin.nonempty
  refine ⟨parseQuery ('/' :: (s.rdropWhile isC0OrSpace).filter (!isTabOrNewline ·)), ?_⟩
  simp only [parse, trimmed_origin, parts, if_neg web, authority, if_neg present, after,
    parsePath_slash]
  rfl

end Origins

section Survival

/-- Nothing, or a query. -/
def IsQuery (behind : List Char) : Prop :=
  behind = [] ∨ ∃ query, behind = '?' :: query

variable {path behind : List Char}

/-- Parsing only removes characters of a path. -/
theorem pathText_sublist (path : List Char) (query : IsQuery behind)
    : (pathText (path ++ behind)).Sublist path := by
  rcases query with nothing | ⟨query, present⟩
  · rw [nothing, List.append_nil]
    exact ((List.takeWhile_sublist _).trans List.filter_sublist).trans
      (List.rdropWhile_prefix _ _).sublist
  · rw [present, pathText, Cuts.rdropWhile_append_of_last rfl, List.filter_append,
      List.filter_cons_of_pos rfl, List.takeWhile_append]
    split
    · simp [endsPath]
    · exact (List.takeWhile_sublist _).trans List.filter_sublist

/-- A path is kept when it has nothing to remove, and no blank end unless a query follows. -/
theorem pathText_eq_self_iff (query : IsQuery behind)
    : pathText (path ++ behind) = path
      ↔ (∀ c ∈ path, endsPath c = false ∧ isTabOrNewline c = false)
        ∧ (behind = [] → ∀ c ∈ path.getLast?, isC0OrSpace c = false) := by
  constructor
  · intro kept
    refine ⟨?_, ?_⟩
    · intro c member
      rw [← kept] at member
      have inside := List.mem_takeWhile_imp member
      have printed := List.of_mem_filter ((List.takeWhile_sublist _).mem member)
      exact ⟨by simpa using inside, by simpa using printed⟩
    · intro nothing
      have upper : path.Sublist (path.rdropWhile isC0OrSpace) := by
        rw [nothing, List.append_nil] at kept
        conv_lhs => rw [← kept]
        exact (List.takeWhile_sublist _).trans List.filter_sublist
      have same := (List.rdropWhile_prefix _ _).sublist.antisymm upper
      rw [List.rdropWhile_eq_self_iff] at same
      intro c last
      obtain ⟨nonempty, isLast⟩ := List.mem_getLast?_eq_getLast last
      rw [isLast]
      simpa using same nonempty
  · intro h
    obtain ⟨clean, unblank⟩ := h
    have printed : path.filter (!isTabOrNewline ·) = path := by
      rw [List.filter_eq_self]
      intro c member
      rw [(clean c member).2, Bool.not_false]
    have inside : ∀ c ∈ path, (!endsPath c) = true := by
      intro c member
      rw [(clean c member).1, Bool.not_false]
    rcases query with nothing | ⟨query, present⟩
    · have same : path.rdropWhile isC0OrSpace = path := by
        rw [List.rdropWhile_eq_self_iff]
        intro nonempty
        simp [unblank nothing _ (List.getLast_mem_getLast? nonempty)]
      rw [nothing, List.append_nil, pathText, same, printed, List.takeWhile_eq_self_iff]
      exact inside
    · rw [present, pathText, Cuts.rdropWhile_append_of_last rfl, List.filter_append,
        List.filter_cons_of_pos rfl, printed, List.takeWhile_append_of_pos inside]
      exact List.append_nil _

end Survival

section Splitting

/-- The pieces of a split text have its characters, without the separators. -/
theorem mem_of_mem_splitOnP {s segment : List Char} {c : Char}
    (piece : segment ∈ s.splitOnP isSeparator) (member : c ∈ segment)
    : c ∈ s ∧ isSeparator c = false := by
  induction s generalizing segment with
  | nil =>
      rw [List.splitOnP_nil, List.mem_singleton] at piece
      rw [piece] at member
      cases member
  | cons first rest ih =>
      rw [List.splitOnP_cons_eq_if_modifyHead] at piece
      split at piece
      next =>
        rcases List.mem_cons.mp piece with empty | inRest
        · rw [empty] at member
          cases member
        · obtain ⟨inside, notSeparator⟩ := ih inRest member
          exact ⟨List.mem_cons_of_mem _ inside, notSeparator⟩
      next other =>
        cases split : rest.splitOnP isSeparator with
        | nil => exact absurd split (List.splitOnP_ne_nil _ _)
        | cons head more =>
            rw [split] at piece ih
            rw [List.modifyHead_cons] at piece
            rcases List.mem_cons.mp piece with atHead | inMore
            · rw [atHead] at member
              rcases List.mem_cons.mp member with same | inHead
              · rw [same]
                exact ⟨List.mem_cons_self, by simpa using other⟩
              · obtain ⟨inside, notSeparator⟩ := ih List.mem_cons_self inHead
                exact ⟨List.mem_cons_of_mem _ inside, notSeparator⟩
            · obtain ⟨inside, notSeparator⟩ := ih (List.mem_cons_of_mem _ inMore) member
              exact ⟨List.mem_cons_of_mem _ inside, notSeparator⟩

/-- Segments that are joined by slashes are split again if they have no separators. -/
theorem splitOnP_intercalate {segments : List (List Char)} (nonempty : segments ≠ [])
    (whole : ∀ segment ∈ segments, ∀ c ∈ segment, isSeparator c = false)
    : (['/'].intercalate segments).splitOnP isSeparator = segments := by
  induction segments with
  | nil => exact absurd rfl nonempty
  | cons first rest ih =>
      have here := whole first List.mem_cons_self
      cases rest with
      | nil => rw [List.intercalate_singleton, List.splitOnP_eq_singleton here]
      | cons second more =>
          have later := ih (List.cons_ne_nil _ _)
            (fun other member => whole other (List.mem_cons_of_mem _ member))
          rw [List.intercalate_cons_cons, List.append_assoc, List.singleton_append,
            List.splitOnP_append_cons_of_forall_mem here '/' rfl, later]

/-- The characters of joined segments are theirs, and slashes. -/
theorem mem_intercalate {segments : List (List Char)} {c : Char}
    (member : c ∈ ['/'].intercalate segments)
    : c = '/' ∨ ∃ segment ∈ segments, c ∈ segment := by
  induction segments with
  | nil =>
      rw [List.intercalate_nil] at member
      cases member
  | cons first rest ih =>
      cases rest with
      | nil =>
          rw [List.intercalate_singleton] at member
          exact Or.inr ⟨first, List.mem_cons_self, member⟩
      | cons second more =>
          rw [List.intercalate_cons_cons, List.append_assoc, List.mem_append,
            List.singleton_append, List.mem_cons] at member
          rcases member with inFirst | slash | inRest
          · exact Or.inr ⟨first, List.mem_cons_self, inFirst⟩
          · exact Or.inl slash
          · rcases ih inRest with slash | ⟨segment, inSegments, inside⟩
            · exact Or.inl slash
            · exact Or.inr ⟨segment, List.mem_cons_of_mem _ inSegments, inside⟩

end Splitting

theorem isPlain_iff {segment : List Char}
    : isPlain segment = true
      ↔ (∀ c ∈ segment,
          isSeparator c = false ∧ endsPath c = false ∧ isTabOrNewline c = false)
        ∧ isKept segment = true := by
  simp [isPlain, and_assoc]

/-- Kept segments are read as their own bytes. -/
theorem decode_resolve {segments : List (List Char)}
    (kept : ∀ segment ∈ segments, isKept segment = true)
    : (resolve [] segments).map decode = segments.map utf8 := by
  rw [resolve_kept [] kept, List.reverse_nil, List.nil_append, List.map_map]
  apply List.map_congr_left
  intro segment member
  have noEscape : hasEscape segment = false := by
    have isKept := kept segment member
    simp only [UrlPaths.isKept, Bool.and_eq_true, Bool.not_eq_true'] at isKept
    exact isKept.2
  rw [Function.comp_apply, decode_encoded, decode_of_noEscape noEscape]

theorem decodedWeight_eq_weight {path segments : List (List Char)}
    (decoded : path.map decode = segments.map utf8)
    : decodedWeight path = weight segments := by
  have lengths := congrArg (List.map (fun bytes => bytes.length + 1)) decoded
  rw [List.map_map, List.map_map] at lengths
  exact congrArg List.sum lengths

/-- Plain segments are parsed one by one. -/
theorem parse_plain (origin : Origin) {segments : List (List Char)} {behind : List Char}
    (nonempty : segments ≠ []) (query : IsQuery behind)
    (plain : ∀ segment ∈ segments, isPlain segment = true)
    (unblank : behind = [] → ∀ c ∈ (['/'].intercalate segments).getLast?, isC0OrSpace c = false)
    : ∃ url,
        parse (origin.text ++ '/' :: (['/'].intercalate segments ++ behind)) = some url
        ∧ url.path = resolve [] segments := by
  have parts (segment : List Char) (member : segment ∈ segments) :=
    isPlain_iff.mp (plain segment member)
  have clean
      : ∀ c ∈ ['/'].intercalate segments, endsPath c = false ∧ isTabOrNewline c = false := by
    intro c member
    rcases mem_intercalate member with slash | ⟨segment, inSegments, inside⟩
    · rw [slash]
      decide
    · exact ((parts segment inSegments).1 c inside).2
  obtain ⟨_, parsed⟩ := parse_origin origin (['/'].intercalate segments ++ behind)
  refine ⟨_, parsed, ?_⟩
  rw [(pathText_eq_self_iff query).mpr ⟨clean, unblank⟩,
    splitOnP_intercalate nonempty
      (fun segment member c inside => ((parts segment member).1 c inside).1)]

/-- A path stands for the segments it was written as exactly when all of them are plain, and
its end is not blank unless a query follows.
Witness: what parsing removes or resolves is missing in the weight of the decoded path.
-/
theorem decoded_path_iff (origin : Origin) {segments : List (List Char)} {behind : List Char}
    (nonempty : segments ≠ []) (query : IsQuery behind)
    : (∃ url,
        parse (origin.text ++ '/' :: (['/'].intercalate segments ++ behind)) = some url
        ∧ url.path.map decode = segments.map utf8)
      ↔ (∀ segment ∈ segments, isPlain segment = true)
        ∧ (behind = [] → ∀ c ∈ (['/'].intercalate segments).getLast?, isC0OrSpace c = false) := by
  have joined := weight_intercalate nonempty
  constructor
  · generalize ['/'].intercalate segments = path at joined ⊢
    obtain ⟨_, parsed⟩ := parse_origin origin (path ++ behind)
    intro h
    obtain ⟨url, found, decoded⟩ := h
    rw [parsed] at found
    cases found
    change (resolve [] ((pathText (path ++ behind)).splitOnP isSeparator)).map decode
      = segments.map utf8 at decoded
    -- No step may lose weight, since the decoded path has all of it.
    have total := decodedWeight_eq_weight decoded
    have split := weight_splitOnP (pathText (path ++ behind))
    obtain ⟨fewer, whole⟩ := utf8_sublist (pathText_sublist path query)
    obtain ⟨lighter, lost⟩ :=
      resolve_weight [] ((pathText (path ++ behind)).splitOnP isSeparator)
    have nothing : decodedWeight [] = 0 := rfl
    have same : pathText (path ++ behind) = path := whole (by omega)
    rw [same] at split lost decoded total
    have kept
        : ∀ segment ∈ path.splitOnP isSeparator, isKept segment = true := by
      intro segment member
      by_contra notKept
      have loss := lost ⟨segment, member, by simpa using notKept⟩
      omega
    obtain ⟨clean, unblank⟩ := (pathText_eq_self_iff query).mp same
    have pieces : path.splitOnP isSeparator = segments := by
      rw [decode_resolve kept] at decoded
      exact List.map_injective_iff.mpr (fun _ _ => utf8_injective) decoded
    refine ⟨?_, unblank⟩
    intro segment member
    rw [← pieces] at member
    refine isPlain_iff.mpr ⟨?_, kept segment member⟩
    intro c inSegment
    obtain ⟨inPath, notSeparator⟩ := mem_of_mem_splitOnP member inSegment
    exact ⟨notSeparator, clean c inPath⟩
  · intro h
    obtain ⟨plain, unblank⟩ := h
    obtain ⟨url, found, path⟩ := parse_plain origin nonempty query plain unblank
    refine ⟨url, found, ?_⟩
    rw [path]
    exact decode_resolve (fun segment member => (isPlain_iff.mp (plain segment member)).2)

end UrlPaths
