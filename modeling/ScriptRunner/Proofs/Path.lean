import Mathlib.Data.List.Induction
import Mathlib.Data.List.Infix
import ScriptRunner.Path
import ScriptRunner.Proofs.Text.Joining

/-!
# ScriptRunner.Proofs.Path

Where paths lead, by their text alone.

A place is a directory, written as the names on the way to it from the root. A path is followed
from a place piece by piece (`follow`): a name leads one directory down, `..` leads one up and
stays at the root, and `.` and nothing at all stay where they are. To follow two paths joined is
to follow one after the other (`follow_join`).

`normalize` follows a path from the root and writes down the place that it finds
(`normalize_eq`). A path that is not absolute may be followed from elsewhere, where there is
something above the place that it starts from. There the normalized path leads to the same place
only if the path never goes up that far (`StaysWithin`, `follow_normalize_iff`).
-/

namespace ScriptRunner

namespace Path

/-- What stands between the slashes of a path. -/
def pieces (path : Path) : List String := (path.toList.splitOn '/').map String.ofList

/-- Whether a piece of a path is the name of a directory. -/
def isName (piece : String) : Bool := piece != "" && piece != "." && piece != ".."

/-- The place that one piece of a path leads to. -/
def enter (place : List String) (piece : String) : List String :=
  if piece = ".." then place.dropLast
  else if isName piece then place ++ [piece]
  else place

/-- The place that a path leads to. An absolute path starts at the root. -/
def follow (place : List String) (path : Path) : List String :=
  (pieces path).foldl enter (if isAbsolute path then [] else place)

/-- The names on the way to a directory: each of them one name, and not `.` or `..`. -/
def IsPlace (place : List String) : Prop :=
  ∀ name ∈ place, isName name = true ∧ '/' ∉ name.toList

/-! ## Pieces -/

theorem splitSlash_eq_splitOn (text : List Char) : splitSlash text = text.splitOn '/' := by
  induction text with
  | nil => rfl
  | cons c rest ih =>
      rw [splitSlash, ih, List.splitOn_cons_eq_if_modifyHead]
      by_cases hc : c = '/'
      · rw [if_pos hc, if_pos (beq_iff_eq.2 hc)]
      · obtain ⟨piece, others, hsplit⟩ := List.exists_cons_of_ne_nil (List.splitOn_ne_nil '/' rest)
        rw [if_neg hc, if_neg (by simpa using hc), hsplit]
        rfl

theorem slash_not_mem_of_mem_pieces {path : Path} {piece : String} (h : piece ∈ pieces path) :
    '/' ∉ piece.toList := by
  obtain ⟨text, htext, rfl⟩ := List.mem_map.1 h
  rw [String.toList_ofList]
  exact Text.not_mem_of_mem_splitOn htext

theorem components_eq (path : Path) :
    components path = (pieces path).filter (fun piece => piece != "" && piece != ".") := by
  rw [components, splitSlash_eq_splitOn, pieces]

/-- A slash between two texts parts them. -/
theorem pieces_slash (first second : Path) :
    pieces (first ++ "/" ++ second) = pieces first ++ pieces second := by
  have htext : (first ++ "/" ++ second).toList = first.toList ++ '/' :: second.toList := by
    simp
  rw [pieces, htext, List.splitOn_append_cons_self, List.map_append, pieces, pieces]

theorem pieces_empty : pieces "" = [""] := rfl

/-- The pieces of names with slashes between them are the names. -/
theorem pieces_intercalate {names : List String} (hne : names ≠ []) (h : IsPlace names) :
    pieces ("/".intercalate names) = names := by
  have htext : ("/".intercalate names).toList = ['/'].intercalate (names.map String.toList) :=
    String.toList_intercalate ..
  have hslash : ∀ text ∈ names.map String.toList, '/' ∉ text := by
    intro text htext
    obtain ⟨name, hname, rfl⟩ := List.mem_map.1 htext
    exact (h name hname).2
  rw [pieces, htext, List.splitOn_intercalate '/' hslash (by simpa using hne), List.map_map]
  exact List.map_id'' (fun name => String.ofList_toList) names

/-! ## Absolute paths -/

theorem isAbsolute_append {first : Path} (h : first ≠ "") (second : Path) :
    isAbsolute (first ++ second) = isAbsolute first := by
  have htext : first.toList ≠ [] := by simpa using h
  rw [isAbsolute, isAbsolute, String.toList_append, List.head?_append_of_ne_nil _ htext]

theorem isAbsolute_join (base target : Path) :
    isAbsolute (join base target) = (isAbsolute target || isAbsolute base) := by
  rw [join]
  by_cases htarget : isAbsolute target = true
  · rw [if_pos htarget, htarget, Bool.true_or]
  rw [if_neg htarget, Bool.eq_false_iff.2 htarget, Bool.false_or]
  by_cases hbase : base = ""
  · subst hbase
    exact Bool.eq_false_iff.2 htarget
  rw [if_neg (by simpa using hbase)]
  split
  · exact isAbsolute_append hbase target
  · rw [String.append_assoc]
    exact isAbsolute_append hbase _

/-- The first name of a place is not empty, so that its text does not start at the root. -/
theorem isAbsolute_ofComponents {absolute : Bool} {names : List String} (h : IsPlace names) :
    isAbsolute (ofComponents absolute names) = absolute := by
  rw [isAbsolute, ofComponents, String.toList_append]
  cases absolute with
  | true => rfl
  | false =>
      cases names with
      | nil => rfl
      | cons name rest =>
          obtain ⟨hname, hslash⟩ := h name List.mem_cons_self
          have hne : name.toList ≠ [] := by
            intro hempty
            rw [String.toList_eq_nil_iff.1 hempty] at hname
            cases hname
          obtain ⟨c, more, hc⟩ := List.exists_cons_of_ne_nil hne
          have hhead : c ≠ '/' := by
            rintro rfl
            exact hslash (hc ▸ List.mem_cons_self)
          rw [toList_joined, List.map_cons, Text.join_cons, hc]
          simpa using hhead

/-! ## Following a path -/

theorem enter_up (place : List String) : enter place ".." = place.dropLast := rfl

theorem enter_name {piece : String} (h : isName piece = true) (place : List String) :
    enter place piece = place ++ [piece] := by
  have hup : piece ≠ ".." := by
    rintro rfl
    cases h
  rw [enter, if_neg hup, if_pos h]

theorem enter_stay {piece : String} (hup : piece ≠ "..") (h : isName piece = false)
    (place : List String) : enter place piece = place := by
  rw [enter, if_neg hup, h]
  rfl

theorem foldl_enter_names {names : List String} (h : IsPlace names) (place : List String) :
    names.foldl enter place = place ++ names := by
  induction names generalizing place with
  | nil => exact (List.append_nil place).symm
  | cons name rest ih =>
      have hrest : IsPlace rest := fun other hother => h other (List.mem_cons_of_mem _ hother)
      rw [List.foldl_cons, enter_name (h name List.mem_cons_self).1, ih hrest, List.append_assoc,
        List.singleton_append]

theorem IsPlace.enter {place : List String} (h : IsPlace place) {piece : String}
    (hpiece : '/' ∉ piece.toList) : IsPlace (enter place piece) := by
  rw [Path.enter]
  split
  · exact fun name hname => h name (List.mem_of_mem_dropLast hname)
  split
  · next hisName =>
      intro name hname
      rcases List.mem_append.1 hname with hname | hname
      · exact h name hname
      · rw [List.mem_singleton.1 hname]
        exact ⟨hisName, hpiece⟩
  · exact h

theorem isPlace_nil : IsPlace [] := fun _ h => absurd h List.not_mem_nil

/-- From a directory a path leads to a directory. -/
theorem IsPlace.follow {place : List String} (h : IsPlace place) (path : Path) :
    IsPlace (follow place path) := by
  have hstart : IsPlace (if isAbsolute path then [] else place) := by
    split
    · exact isPlace_nil
    · exact h
  have hpieces : ∀ piece ∈ pieces path, '/' ∉ piece.toList :=
    fun _ => slash_not_mem_of_mem_pieces
  rw [Path.follow]
  generalize (if isAbsolute path then [] else place) = start at hstart
  generalize pieces path = pieces at hpieces
  induction pieces generalizing start with
  | nil => exact hstart
  | cons piece rest ih =>
      exact ih _ (hstart.enter (hpieces piece List.mem_cons_self))
        (fun other hother => hpieces other (List.mem_cons_of_mem _ hother))

theorem follow_of_isAbsolute {path : Path} (h : isAbsolute path = true) (place : List String) :
    follow place path = follow [] path := by
  rw [follow, follow, if_pos h, if_pos h]

theorem follow_slash {first second : Path} (hfirst : first ≠ "")
    (hsecond : isAbsolute second = false) (place : List String) :
    follow place (first ++ "/" ++ second) = follow (follow place first) second := by
  have habsolute : isAbsolute (first ++ "/" ++ second) = isAbsolute first := by
    rw [String.append_assoc]
    exact isAbsolute_append hfirst _
  rw [follow, habsolute, pieces_slash, List.foldl_append]
  rw [follow, hsecond]
  rfl

/-- To follow two paths joined is to follow one after the other. -/
theorem follow_join (place : List String) (base target : Path) :
    follow place (join base target) = follow (follow place base) target := by
  rw [join]
  by_cases htarget : isAbsolute target = true
  · rw [if_pos htarget, follow_of_isAbsolute htarget, follow_of_isAbsolute htarget (follow _ _)]
  rw [if_neg htarget]
  have hrelative : isAbsolute target = false := Bool.eq_false_iff.2 htarget
  by_cases hbase : base = ""
  · subst hbase
    rfl
  rw [if_neg (by simpa using hbase)]
  split
  · next hlast =>
      -- the last slash of the base parts it from the target, and from nothing at its own end
      obtain ⟨front, hfront⟩ := List.getLast?_eq_some_iff.1 (beq_iff_eq.1 hlast)
      obtain rfl : base = String.ofList front ++ "/" := by
        rw [← String.toList_inj, hfront]
        simp
      have hend : pieces (String.ofList front ++ "/") = pieces (String.ofList front) ++ [""] := by
        rw [← pieces_empty, ← pieces_slash, String.append_empty]
      rw [follow, isAbsolute_append hbase, pieces_slash, List.foldl_append]
      rw [follow, hrelative, follow, hend, List.foldl_append]
      rfl
  · exact follow_slash hbase hrelative place

/-! ## Normalizing -/

/-- To read names on top of a stack is to follow them. -/
theorem foldl_climb (names stack : List String) :
    ((names.filter (fun name => name != "" && name != ".")).foldl climb stack).reverse =
      names.foldl enter stack.reverse := by
  induction names generalizing stack with
  | nil => rfl
  | cons name rest ih =>
      by_cases hup : name = ".."
      · subst hup
        rw [List.filter_cons_of_pos rfl, List.foldl_cons, List.foldl_cons, enter_up,
          List.dropLast_reverse, ← ih]
        rfl
      by_cases hname : isName name = true
      · have hkept : (name != "" && name != ".") = true := by
          simp_all [isName]
        rw [List.filter_cons, if_pos hkept, List.foldl_cons, List.foldl_cons, enter_name hname,
          climb, if_neg hup, ih, List.reverse_cons]
      · have hdropped : ¬ (name != "" && name != ".") = true := by
          simp_all [isName]
        rw [List.filter_cons, if_neg hdropped, List.foldl_cons, ih,
          enter_stay hup (Bool.eq_false_iff.2 hname)]

theorem normalize_eq (path : Path) :
    normalize path = ofComponents (isAbsolute path) (follow [] path) := by
  rw [normalize, components_eq, foldl_climb, follow, ite_self]
  rfl

theorem follow_ofComponents {absolute : Bool} {names : List String} (h : IsPlace names)
    (place : List String) :
    follow place (ofComponents absolute names) = (if absolute then [] else place) ++ names := by
  rw [follow, isAbsolute_ofComponents h]
  have hnames : ∀ start, (pieces ("/".intercalate names)).foldl enter start = start ++ names := by
    intro start
    by_cases hne : names = []
    · rw [hne]
      exact (List.append_nil start).symm
    · rw [pieces_intercalate hne h, foldl_enter_names h]
  cases absolute with
  | false =>
      have hplain : ofComponents false names = "/".intercalate names := String.empty_append
      rw [hplain, hnames, if_neg Bool.false_ne_true]
  | true =>
      have hslash : ofComponents true names = "" ++ "/" ++ "/".intercalate names := rfl
      rw [hslash, pieces_slash, List.foldl_append, hnames]
      rfl

/-- A normalized path that is not absolute leads down from where it is followed. -/
theorem follow_normalize (place : List String) (path : Path) :
    follow place (normalize path) =
      (if isAbsolute path then [] else place) ++ follow [] path := by
  rw [normalize_eq, follow_ofComponents (isPlace_nil.follow path)]

/-! ## Paths that stay where they start -/

/-- Where there are `depth` directories to leave, none of the pieces leaves more than those and the
ones that were entered before it. -/
def StaysWithin (depth : Nat) (pieces : List String) : Prop :=
  ∀ front, front <+: pieces → front.count ".." ≤ depth + front.countP isName

instance (depth : Nat) (pieces : List String) : Decidable (StaysWithin depth pieces) :=
  decidable_of_iff
    (∀ front ∈ pieces.inits, front.count ".." ≤ depth + front.countP isName)
    (by simp only [List.mem_inits, StaysWithin])

theorem staysWithin_nil (depth : Nat) : StaysWithin depth [] := by
  intro front hfront
  rw [List.prefix_nil.1 hfront]
  exact Nat.zero_le _

/-- What the first piece does to the number of directories decides about the rest. -/
theorem staysWithin_cons {depth : Nat} {piece : String} {rest : List String} :
    StaysWithin depth (piece :: rest) ↔
      ∀ front, front <+: rest →
        (piece :: front).count ".." ≤ depth + (piece :: front).countP isName := by
  constructor
  · intro h front hfront
    exact h _ (List.cons_prefix_cons.2 ⟨rfl, hfront⟩)
  · intro h front hfront
    rcases List.prefix_cons_iff.1 hfront with rfl | ⟨more, rfl, hmore⟩
    · exact Nat.zero_le _
    · exact h more hmore

theorem staysWithin_up {depth : Nat} {rest : List String} :
    StaysWithin depth (".." :: rest) ↔ ∃ left, depth = left + 1 ∧ StaysWithin left rest := by
  have hcount : ∀ front : List String, (".." :: front).count ".." = front.count ".." + 1 :=
    fun front => List.count_cons_self
  have hcountP : ∀ front : List String, (".." :: front).countP isName = front.countP isName :=
    fun front => List.countP_cons_of_neg (by decide)
  simp only [staysWithin_cons, hcount, hcountP]
  constructor
  · intro h
    have hpos := h [] List.nil_prefix
    obtain ⟨left, rfl⟩ : ∃ left, depth = left + 1 := ⟨depth - 1, by simp at hpos; omega⟩
    exact ⟨left, rfl, fun front hfront => by have := h front hfront; omega⟩
  · rintro ⟨left, rfl, h⟩ front hfront
    have := h front hfront
    omega

theorem staysWithin_name {depth : Nat} {piece : String} {rest : List String}
    (h : isName piece = true) :
    StaysWithin depth (piece :: rest) ↔ StaysWithin (depth + 1) rest := by
  have hup : piece ≠ ".." := by
    rintro rfl
    cases h
  simp only [staysWithin_cons, List.count_cons_of_ne hup, List.countP_cons_of_pos h]
  refine forall₂_congr (fun front _ => ?_)
  omega

theorem staysWithin_stay {depth : Nat} {piece : String} {rest : List String} (hup : piece ≠ "..")
    (h : isName piece = false) : StaysWithin depth (piece :: rest) ↔ StaysWithin depth rest := by
  have hname : ¬ isName piece = true := by simp [h]
  simp only [staysWithin_cons, List.count_cons_of_ne hup, List.countP_cons_of_neg hname]
  rfl

/-- Of the place that pieces are followed from a beginning is left, and below it is the place that
they lead to from the root. -/
theorem exists_foldl_enter_eq (pieces place : List String) :
    ∃ kept, kept <+: place ∧ pieces.foldl enter place = kept ++ pieces.foldl enter [] := by
  induction pieces using List.reverseRecOn with
  | nil => exact ⟨place, List.prefix_rfl, (List.append_nil place).symm⟩
  | append_singleton pieces piece ih =>
      obtain ⟨kept, hkept, heq⟩ := ih
      rw [List.foldl_append, List.foldl_append, heq]
      generalize pieces.foldl enter [] = found
      simp only [List.foldl_cons, List.foldl_nil]
      by_cases hup : piece = ".."
      · subst hup
        rw [enter_up, enter_up]
        by_cases hfound : found = []
        · refine ⟨kept.dropLast, (List.dropLast_prefix kept).trans hkept, ?_⟩
          rw [hfound, List.append_nil, List.dropLast_nil, List.append_nil]
        · exact ⟨kept, hkept, List.dropLast_append_of_ne_nil hfound⟩
      by_cases hname : isName piece = true
      · exact ⟨kept, hkept, by rw [enter_name hname, enter_name hname, List.append_assoc]⟩
      · have hstay := Bool.eq_false_iff.2 hname
        exact ⟨kept, hkept, by rw [enter_stay hup hstay, enter_stay hup hstay]⟩

/-- What is above the start makes no difference exactly if it is never reached. -/
theorem foldl_enter_append_iff {outer : List String} (h : outer ≠ []) (pieces inner : List String) :
    pieces.foldl enter (outer ++ inner) = outer ++ pieces.foldl enter inner ↔
      StaysWithin inner.length pieces := by
  induction pieces generalizing inner with
  | nil => exact iff_of_true rfl (staysWithin_nil _)
  | cons piece rest ih =>
      rw [List.foldl_cons, List.foldl_cons]
      by_cases hup : piece = ".."
      · subst hup
        rw [staysWithin_up, enter_up, enter_up]
        rcases List.eq_nil_or_concat' inner with rfl | ⟨left, last, rfl⟩
        · -- the last name of the outer part is lost for good
          refine iff_of_false (fun heq => ?_) (by simp)
          obtain ⟨kept, hkept, hrest⟩ := exists_foldl_enter_eq rest outer.dropLast
          rw [List.append_nil, List.dropLast_nil, hrest, List.append_cancel_right_eq] at heq
          have hlength := hkept.length_le
          rw [heq, List.length_dropLast] at hlength
          have hpos := List.length_pos_of_ne_nil h
          omega
        · rw [← List.append_assoc, List.dropLast_concat, List.dropLast_concat, ih]
          simp
      by_cases hname : isName piece = true
      · rw [staysWithin_name hname, enter_name hname, enter_name hname, List.append_assoc, ih,
          List.length_append, List.length_singleton]
      · have hstay := Bool.eq_false_iff.2 hname
        rw [staysWithin_stay hup hstay, enter_stay hup hstay, enter_stay hup hstay, ih]

/-- A normalized path leads to the same place as the path itself if that is absolute, if it is
followed from the root, or if it never leads out of where it starts; and only then. -/
theorem follow_normalize_iff (place : List String) (path : Path) :
    follow place (normalize path) = follow place path ↔
      isAbsolute path = true ∨ place = [] ∨ StaysWithin 0 (pieces path) := by
  rw [follow_normalize]
  by_cases habsolute : isAbsolute path = true
  · rw [if_pos habsolute, List.nil_append, follow_of_isAbsolute habsolute place]
    exact iff_of_true rfl (Or.inl habsolute)
  by_cases hplace : place = []
  · rw [hplace, ite_self, List.nil_append]
    exact iff_of_true rfl (Or.inr (Or.inl rfl))
  have hroot := foldl_enter_append_iff hplace (pieces path) []
  rw [List.append_nil, List.length_nil] at hroot
  rw [if_neg habsolute, follow, follow, ite_self, if_neg habsolute, eq_comm, hroot]
  simp [habsolute, hplace]

end Path

end ScriptRunner
