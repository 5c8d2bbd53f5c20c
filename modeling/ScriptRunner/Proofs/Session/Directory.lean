import Mathlib.Data.List.Basic
import ScriptRunner.Proofs.Path
import ScriptRunner.Session.Basic

/-!
# ScriptRunner.Proofs.Session.Directory

Where `cd` leads.

The target is followed from the directory of the session, and the place found is written down
(`changeDirectory_eq`). So two moves in a row are one move along both targets, and in an absolute
directory the outcome is the name of a place and nothing else: `changeDirectory_lexical`.

In a session whose directory is not absolute, what matters is the place that it stands for in the
directory of the process. `cd` keeps to that place as long as the targets do not lead above the
start (`changeDirectory_follow_iff`), and loses it when they do (`not_follows`).
-/

open ScriptRunner.Path

namespace ScriptRunner

/-- Only a leading `~` is anything but itself. -/
theorem Path.expandTilde_of_ne {target : Path} (h : target.toList.head? ≠ some '~')
    (home : Option String) : expandTilde home target = target := by
  rw [expandTilde]
  split
  · next rest htarget => exact absurd (htarget ▸ rfl) h
  · rfl

/-- `cd` writes down the place that its target leads to from the place of the session. -/
theorem changeDirectory_eq (cwd target : Path) (env : Env) :
    changeDirectory cwd [target] env =
      .ok (ofComponents
        (isAbsolute (expandTilde (env.lookup "HOME") target) || isAbsolute cwd)
        (follow (follow [] cwd) (expandTilde (env.lookup "HOME") target))) := by
  rw [← isAbsolute_join, ← follow_join, ← normalize_eq]
  rfl

theorem changeDirectory_of_ne {target : Path} (h : target.toList.head? ≠ some '~') (cwd : Path)
    (env : Env) :
    changeDirectory cwd [target] env =
      .ok (ofComponents (isAbsolute target || isAbsolute cwd) (follow (follow [] cwd) target)) := by
  rw [changeDirectory_eq, expandTilde_of_ne h]

theorem changeDirectory_of_length_ne {args : List String} (h : args.length ≠ 1) (cwd : Path)
    (env : Env) : changeDirectory cwd args env = .error (.directoryCount args.length) := by
  unfold changeDirectory
  split
  · exact absurd rfl h
  · rfl

/-- The place of a path that `cd` wrote down. -/
theorem follow_written (absolute : Bool) (cwd target : Path) :
    follow [] (ofComponents absolute (follow (follow [] cwd) target)) =
      follow (follow [] cwd) target := by
  rw [follow_ofComponents ((isPlace_nil.follow cwd).follow target), ite_self, List.nil_append]

/-- One move after the other is one move along both targets. -/
theorem changeDirectory_slash {a b : Path} (hne : a ≠ "") (ha : a.toList.head? ≠ some '~')
    (hrelative : isAbsolute b = false) (hb : b.toList.head? ≠ some '~') (cwd : Path) (env : Env) :
    ∃ middle final, changeDirectory cwd [a] env = .ok middle ∧
      changeDirectory middle [b] env = .ok final ∧
      changeDirectory cwd [a ++ "/" ++ b] env = .ok final := by
  have hhead : (a ++ "/" ++ b).toList.head? = a.toList.head? := by
    have htext : a.toList ≠ [] := by simpa using hne
    rw [String.append_assoc, String.toList_append, List.head?_append_of_ne_nil _ htext]
  have habsolute : isAbsolute (a ++ "/" ++ b) = isAbsolute a := by
    rw [isAbsolute, hhead, ← isAbsolute]
  refine ⟨_, _, changeDirectory_of_ne ha cwd env, changeDirectory_of_ne hb _ env, ?_⟩
  rw [changeDirectory_of_ne (hhead ▸ ha), follow_slash hne hrelative, habsolute, follow_written,
    isAbsolute_ofComponents ((isPlace_nil.follow cwd).follow a), hrelative, Bool.false_or]

/-- In a directory that `cd` wrote down, `cd .` changes nothing. -/
theorem changeDirectory_dot (absolute : Bool) {names : List String} (h : IsPlace names)
    (env : Env) :
    changeDirectory (ofComponents absolute names) ["."] env =
      .ok (ofComponents absolute names) := by
  have hdot : ∀ place, follow place "." = place := fun _ => rfl
  have habsolute : isAbsolute "." = false := rfl
  rw [changeDirectory_of_ne (by decide), hdot, follow_ofComponents h, ite_self, List.nil_append,
    isAbsolute_ofComponents h, habsolute, Bool.false_or]

/-- From an absolute directory `cd` leads to an absolute one. -/
theorem changeDirectory_absolute {cwd : Path} (h : isAbsolute cwd = true) (target : Path)
    (env : Env) :
    ∃ names, names = follow (follow [] cwd) (expandTilde (env.lookup "HOME") target) ∧
      IsPlace names ∧ changeDirectory cwd [target] env = .ok ("/" ++ "/".intercalate names) ∧
      ∀ later, changeDirectory ("/" ++ "/".intercalate names) ["."] later =
        .ok ("/" ++ "/".intercalate names) := by
  have hplace : IsPlace (follow (follow [] cwd) (expandTilde (env.lookup "HOME") target)) :=
    (isPlace_nil.follow cwd).follow _
  refine ⟨_, rfl, hplace, ?_, changeDirectory_dot true hplace⟩
  rw [changeDirectory_eq, h, Bool.or_true]
  rfl

/-- `cd` resolves its target lexically. A move along two targets is a move along both in a row. In
an absolute directory the outcome is the root, or names with a slash before each, and these are the
names of the place that the target leads to; `cd .` does nothing there. Without a target, or with
several, `cd` fails and the session stays where it is. -/
theorem changeDirectory_lexical :
    (∀ (cwd a b : Path) (env : Env), a ≠ "" → a.toList.head? ≠ some '~' → isAbsolute b = false →
      b.toList.head? ≠ some '~' →
      ∃ middle final, changeDirectory cwd [a] env = .ok middle ∧
        changeDirectory middle [b] env = .ok final ∧
        changeDirectory cwd [a ++ "/" ++ b] env = .ok final) ∧
    (∀ (cwd target : Path) (env : Env), isAbsolute cwd = true →
      ∃ names, names = follow (follow [] cwd) (expandTilde (env.lookup "HOME") target) ∧
        IsPlace names ∧ changeDirectory cwd [target] env = .ok ("/" ++ "/".intercalate names) ∧
        ∀ later, changeDirectory ("/" ++ "/".intercalate names) ["."] later =
          .ok ("/" ++ "/".intercalate names)) ∧
    (∀ (args : List String), args.length ≠ 1 →
      (∀ cwd env, changeDirectory cwd args env = .error (.directoryCount args.length)) ∧
      ∀ (σ : Type) (tools : Tools σ) (s : Session) (env : Env) (input : Option String) (w : σ),
        (s.dispatch tools changeDirectoryName ⟨some changeDirectoryName, args, env⟩ input w).value =
          (s, .error (.builtin (.directoryCount args.length)))) := by
  refine ⟨fun cwd a b env hne ha hrelative hb => changeDirectory_slash hne ha hrelative hb cwd env,
    fun cwd target env h => changeDirectory_absolute h target env, fun args h => ⟨?_, ?_⟩⟩
  · exact fun cwd env => changeDirectory_of_length_ne h cwd env
  · intro σ tools s env input w
    have hcd : s.cd args = (s, .error (.builtin (.directoryCount args.length))) := by
      rw [Session.cd, changeDirectory_of_length_ne h]
    exact hcd

/-- A way that is not absolute, one that leads above the root, and two targets. -/
theorem changeDirectory_lexical_sample :
    (changeDirectory "src/lib" ["../..//x/"] Bindings.empty = .ok "x" ∧
      changeDirectory "x" [".././y"] Bindings.empty = .ok "y" ∧
      changeDirectory "src/lib" ["../..//x//.././y"] Bindings.empty = .ok "y") ∧
    (changeDirectory "/srv" ["~/../../.././a//b"] (Bindings.ofList [("HOME", "home/me")]) =
        .ok "/a/b" ∧
      changeDirectory "/a/b" ["."] Bindings.empty = .ok "/a/b") ∧
    changeDirectory "/srv" ["a", "b"] Bindings.empty = .error (.directoryCount 2) := by
  obtain ⟨hslash, habsolute, hcount⟩ := changeDirectory_lexical
  refine ⟨?_, ?_, (hcount ["a", "b"] (by decide)).1 "/srv" Bindings.empty⟩
  · obtain ⟨middle, final, hmiddle, hfinal, hboth⟩ :=
      hslash "src/lib" "../..//x/" ".././y" Bindings.empty (by decide) (by decide) rfl (by decide)
    have hx : changeDirectory "src/lib" ["../..//x/"] Bindings.empty = .ok "x" := by decide
    have hy : changeDirectory "x" [".././y"] Bindings.empty = .ok "y" := by decide
    obtain rfl : middle = "x" := Except.ok.inj (hmiddle.symm.trans hx)
    obtain rfl : final = "y" := Except.ok.inj (hfinal.symm.trans hy)
    exact ⟨hmiddle, hfinal, hboth⟩
  · obtain ⟨names, hnames, -, hmoved, hstays⟩ :=
      habsolute "/srv" "~/../../.././a//b" (Bindings.ofList [("HOME", "home/me")]) rfl
    obtain rfl : names = ["a", "b"] := hnames.trans (by decide)
    exact ⟨hmoved, hstays Bindings.empty⟩

/-! ## Directories that are not absolute -/

/-- What `cd` keeps of a session's directory is the place that it stands for. In the directory of
the process the new directory stands for the place that the target leads to, if the way is absolute,
if the process is at the root, or if the way never leads out of the directory of the process; and
only then. Else `..` has stopped there. -/
theorem changeDirectory_follow_iff {target : Path} (h : target.toList.head? ≠ some '~')
    (process cwd : Path) (env : Env) :
    ∃ destination, changeDirectory cwd [target] env = .ok destination ∧
      (follow (follow [] process) destination = follow (follow [] process) (join cwd target) ↔
        isAbsolute (join cwd target) = true ∨ follow [] process = [] ∨
          StaysWithin 0 (pieces (join cwd target))) ∧
      (isAbsolute (join cwd target) = false →
        follow (follow [] process) destination =
          follow [] process ++ follow [] (join cwd target)) := by
  refine ⟨normalize (join cwd target), ?_, follow_normalize_iff _ _, fun hrelative => ?_⟩
  · rw [changeDirectory, expandTilde_of_ne h]
  · rw [follow_normalize, hrelative]
    rfl

/-- A way through a directory of the process, up from there and down again. -/
theorem changeDirectory_follow_iff_sample :
    "../.././lib//x".toList.head? ≠ some '~' ∧
    ∃ destination, changeDirectory "src/main" ["../.././lib//x"] Bindings.empty = .ok destination ∧
      follow (follow [] "/home/me/..") destination =
        follow (follow [] "/home/me/..") (join "src/main" "../.././lib//x") := by
  have hplain : "../.././lib//x".toList.head? ≠ some '~' := by decide
  obtain ⟨destination, hdestination, hiff, -⟩ :=
    changeDirectory_follow_iff hplain "/home/me/.." "src/main" Bindings.empty
  exact ⟨hplain, destination, hdestination, hiff.2 (Or.inr (Or.inr (by decide)))⟩

/-- Beside the directory of the process, `cd .` leads into it. -/
theorem not_follows :
    ¬ ∀ (process cwd target : Path) (env : Env), isAbsolute process = true →
      target.toList.head? ≠ some '~' →
      ∃ destination, changeDirectory cwd [target] env = .ok destination ∧
        follow (follow [] process) destination =
          follow (follow [] process) (join cwd target) := by
  intro h
  obtain ⟨destination, hdestination, hplace⟩ :=
    h "/home/me" "../build" "." Bindings.empty rfl (by decide)
  have hbuild : changeDirectory "../build" ["."] Bindings.empty = .ok "build" := by decide
  obtain rfl : destination = "build" := Except.ok.inj (hdestination.symm.trans hbuild)
  exact absurd hplace (by decide)

end ScriptRunner
