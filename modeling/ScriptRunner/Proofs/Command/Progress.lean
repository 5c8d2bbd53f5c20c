import ScriptRunner.Proofs.Command.Depth
import ScriptRunner.Proofs.Command.ScanAgreement

/-!
# ScriptRunner.Proofs.Command.Progress

Whether reading comes to an end.

A text is read in rounds, and nothing but the rounds themselves says how many there are. `scan`
does at most so many, as deep in substitutions as that, and calls the text stalled if they were not
enough. A round that does not end reading leaves less of the text, unless white space that separates
no words is in the way; from then on no round does anything. So there is no need for more rounds
than characters and one: with these `scan` is what the reader makes of the text
(`scan_eq_read`), and if fewer are enough, they give the same (`scan_settled`).

That leaves the texts in which such white space is in the way, or in a text that is handed on from
them (`Stuck`): these and no others are stalled, with every number of rounds (`stuck_iff`).

Main statement: `scan_progress`.
-/

namespace ScriptRunner.Scan

open Reader

variable {inner inner' : List Char → Reading} {text : List Char}

/-! ## Rounds -/

/-- The rounds of reading a text, `n` of them at most. -/
def rounds (inner : List Char → Reading) (text : List Char) : Nat → Loop → Reading
  | 0, l => ⟨.error .stalled, ignoredIn inner l.cursor.handed⟩
  | n + 1, l => (turn inner text l).read inner l (rounds inner text n)

/-- Reading a text with at most `n` rounds, and substitutions with fewer. Where that is not enough,
what is read is called stalled. -/
def scan : Nat → List Char → Reading
  | 0, _ => ⟨.error .stalled, []⟩
  | n + 1, text => rounds (scan n) text (n + 1) Loop.start

theorem Loop.ahead_ahead {l : Loop} {c : Char} (hc : peek text (l.ahead text).cursor = some c) :
    (l.ahead text).ahead text = l.ahead text := by
  have hspace : isCommandBlank c = false := peek_skip hc
  rw [Loop.ahead, skip_of_peek hc hspace]

/-- White space in the way stays there. -/
theorem Loop.Blocked.next {l : Loop} (h : l.Blocked text) : (l.ahead text).Blocked text := by
  obtain ⟨c, hc, hstray⟩ := h
  refine ⟨c, ?_, hstray⟩
  rw [Loop.ahead_ahead hc]
  exact hc

theorem rounds_blocked {l : Loop} (h : l.Blocked text) (n : Nat) :
    rounds inner text n l = ⟨.error .stalled, ignoredIn inner l.cursor.handed⟩ := by
  induction n generalizing l with
  | zero => rfl
  | succ n ih =>
      rw [rounds, turn_blocked h, Turn.read, ih h.next, Loop.ahead, handed_skip]

theorem stepGap_stray {c : Char} (hstray : isStray c = true) (f : Frame) :
    stepGap f c = .halted .stalled f.ignored := by
  have hne : ∀ d, isStray d = false → c ≠ d := fun _ => ne_of_isStray hstray
  simp only [isStray, Bool.and_eq_true, Bool.not_eq_true'] at hstray
  rw [stepGap, if_neg (by simp [hstray.1.2]),
    if_neg (not_or.2 ⟨hne _ (by decide), hne _ (by decide)⟩), if_neg (hne _ (by decide)),
    if_neg (not_or.2 ⟨hne _ (by decide), hne _ (by decide)⟩),
    if_neg (not_or.2 ⟨hne _ (by decide), hne _ (by decide)⟩),
    if_neg (not_or.2 ⟨hne _ (by decide), hne _ (by decide)⟩), if_pos hstray.1.1]

theorem readFrom_blocked {l : Loop} (h : l.Blocked text) :
    l.readFrom inner text = ⟨.error .stalled, ignoredIn inner l.cursor.handed⟩ := by
  obtain ⟨c, hahead, hstray⟩ := h
  have hc : peek text (skip text isCommandBlank l.cursor) = some c := hahead
  rw [Loop.readFrom, readFrom_gap, frame_skip, readFrom_some hc, step_gap, stepGap_stray hstray]
  exact readFrom_halted ..

/-- As many rounds as there are characters, and one more, are enough. -/
theorem rounds_eq {n : Nat} {l : Loop} (hcursor : l.cursor.pos ≤ text.length)
    (hn : text.length - l.cursor.pos < n) : rounds inner text n l = l.readFrom inner text := by
  induction n generalizing l with
  | zero => omega
  | succ n ih =>
      by_cases h : l.Blocked text
      · rw [rounds_blocked h, readFrom_blocked h]
      · rw [rounds, readFrom_turn h]
        cases hturn : turn inner text l with
        | ended cur => rfl
        | stopped halt cur => rfl
        | next l' =>
            obtain ⟨hend, hlt⟩ := left_lt hcursor h hturn
            exact ih hend (by omega)

theorem rounds_start {n : Nat} (hn : text.length < n) :
    rounds inner text n Loop.start = readWith inner text :=
  rounds_eq (Nat.zero_le _) hn

/-- More rounds do not change what is read. -/
theorem rounds_mono {n m : Nat} {l : Loop} (hnm : n ≤ m)
    (h : (rounds inner text n l).result ≠ .error .stalled) :
    rounds inner text m l = rounds inner text n l := by
  induction n generalizing l m with
  | zero => exact absurd rfl h
  | succ n ih =>
      cases m with
      | zero => omega
      | succ m =>
          rw [rounds] at h ⊢
          rw [rounds]
          cases hturn : turn inner text l with
          | ended cur => rfl
          | stopped halt cur => rfl
          | next l' =>
              rw [hturn] at h
              exact ih (by omega) h

/-! ## Substitutions -/

section Settled

variable (h : ∀ part, (inner part).result ≠ .error .stalled → inner' part = inner part)

include h

theorem endSubstitution_settled (double : Bool) (f : Frame) (place : Place) (p : Pieces)
    (part : List Char) :
    endSubstitution inner' double f place p part = endSubstitution inner double f place p part ∨
      ∃ ignored, endSubstitution inner double f place p part = .halted .stalled ignored := by
  by_cases hpart : (inner part).result = .error .stalled
  · right
    simp [endSubstitution, hpart]
  · left
    rw [endSubstitution, endSubstitution, h part hpart]

/-- A reading of substitutions that goes further makes no difference, as long as none of them is
stalled. -/
theorem step_settled (s : State) (c : Char) :
    step inner' s c = step inner s c ∨ ∃ ignored, step inner s c = .halted .stalled ignored := by
  cases s with
  | halted halt ignored => exact Or.inl rfl
  | running done draft position ignored =>
      cases position with
      | word place p mode =>
          cases mode with
          | parens double depth inSingle inDouble escaped taken =>
              simp only [step, stepWord, stepParens]
              split_ifs
              · exact Or.inl rfl
              · exact Or.inl rfl
              · exact Or.inl rfl
              · exact Or.inl rfl
              · exact Or.inl rfl
              · exact endSubstitution_settled h double _ place p taken
              · exact Or.inl rfl
              · exact Or.inl rfl
          | backquote double taken =>
              simp only [step, stepWord]
              split_ifs
              · exact endSubstitution_settled h double _ place p taken
              · exact Or.inl rfl
              · exact Or.inl rfl
          | _ => exact Or.inl rfl
      | _ => exact Or.inl rfl

theorem foldl_settled {s : State}
    (hread : (finish (text.foldl (step inner) s)).result ≠ .error .stalled) :
    text.foldl (step inner') s = text.foldl (step inner) s := by
  induction text generalizing s with
  | nil => rfl
  | cons c rest ih =>
      rw [List.foldl_cons] at hread
      rw [List.foldl_cons, List.foldl_cons]
      rcases step_settled h s c with hstep | ⟨ignored, hstalled⟩
      · rw [hstep]
        exact ih hread
      · rw [hstalled, foldl_halted] at hread
        exact absurd rfl hread

theorem readWith_settled (hread : (readWith inner text).result ≠ .error .stalled) :
    readWith inner' text = readWith inner text := by
  rw [readWith, readWith, foldl_settled h hread]

end Settled

/-- With more rounds than characters, reading by rounds is reading. -/
theorem scan_eq_read {n : Nat} (hn : text.length < n) : scan n text = Reader.read text := by
  induction n generalizing text with
  | zero => omega
  | succ n ih =>
      rw [scan, rounds_start hn, Reader.read_eq]
      exact readWith_congr text (fun part hpart => ih (by omega))

/-- What is read with any number of rounds is what is read. -/
theorem scan_settled {n : Nat} (h : (scan n text).result ≠ .error .stalled) :
    scan n text = Reader.read text := by
  induction n generalizing text with
  | zero => exact absurd rfl h
  | succ n ih =>
      have hmore : rounds (scan n) text (n + 1) Loop.start = readWith (scan n) text := by
        rw [← rounds_start (n := max (n + 1) (text.length + 1)) (by omega)]
        exact (rounds_mono (Nat.le_max_left _ _) h).symm
      rw [scan, hmore] at h ⊢
      rw [Reader.read_eq]
      exact (readWith_settled (fun part hpart => (ih hpart).symm) h).symm

/-! ## Where reading does not get on -/

/-- What reading can come to before a round. -/
inductive Reached (text : List Char) : Loop → Prop
  | start : Reached text Loop.start
  | next {l l' : Loop} (h : Reached text l) (hturn : turn Reader.read text l = .next l') :
      Reached text l'

/-- White space is in the way where a word could start, in the text or in one of its
substitutions. -/
inductive Stuck : List Char → Prop
  | here {text : List Char} {l : Loop} (hreached : Reached text l) (hblocked : l.Blocked text) :
      Stuck text
  | inside {text part : List Char} {l : Loop} (hreached : Reached text l)
      (hhanded : part ∈ (turn Reader.read text l).scanned.cursor.handed) (hpart : Stuck part) :
      Stuck text

namespace Reached

variable {l : Loop}

theorem passes (h : Reached text l) : Passes Reader.read text Cursor.start ⟨.ok (), l.cursor⟩ := by
  induction h with
  | start => exact .here _ ()
  | next _ hturn ih => exact ih.trans (passes_of_turn hturn)

theorem read_eq (h : Reached text l) : Reader.read text = l.readFrom Reader.read text := by
  induction h with
  | start => exact Reader.read_eq text
  | @next l l' hreached hturn ih =>
      rw [ih]
      by_cases hblocked : l.Blocked text
      · rw [turn_blocked hblocked] at hturn
        obtain rfl := Turn.next.inj hturn
        rw [readFrom_blocked hblocked, readFrom_blocked hblocked.next, Loop.ahead, handed_skip]
      · rw [readFrom_turn hblocked, hturn]
        rfl

/-- The substitutions of a round are shorter than the text and of its characters, and where one of
them is stalled, the round is. -/
theorem handed (h : Reached text l) :
    (∀ part ∈ (turn Reader.read text l).scanned.cursor.handed,
      part.length < text.length ∧ part ⊆ text) ∧
    ((turn Reader.read text l).scanned.result = .error .stalled ↔
      ∃ part ∈ (turn Reader.read text l).scanned.cursor.handed,
        (Reader.read part).result = .error .stalled) := by
  obtain ⟨new, hnew, hparts⟩ := (h.passes.trans (passes_turn l)).handed
  rw [hnew]
  exact hparts

end Reached

theorem Stuck.stalled (h : Stuck text) : (Reader.read text).result = .error .stalled := by
  induction h with
  | here hreached hblocked => rw [hreached.read_eq, readFrom_blocked hblocked]
  | @inside text part l hreached hhanded _ ih =>
      have hstalled := hreached.handed.2.2 ⟨part, hhanded, ih⟩
      by_cases hblocked : l.Blocked text
      · rw [hreached.read_eq, readFrom_blocked hblocked]
      · rw [hreached.read_eq, readFrom_turn hblocked]
        cases hturn : turn Reader.read text l with
        | stopped halt cur =>
            rw [hturn] at hstalled
            obtain rfl : halt = .stalled := Except.error.inj hstalled
            rfl
        | _ => simp [hturn, Turn.scanned] at hstalled

/-- Where reading is stalled, the rounds get to where it is. -/
theorem Stuck.of_reached (hpart : ∀ part : List Char, part.length < text.length →
      (Reader.read part).result = .error .stalled → Stuck part)
    (hstalled : (Reader.read text).result = .error .stalled) {l : Loop} (h : Reached text l) :
    Stuck text := by
  by_cases hblocked : l.Blocked text
  · exact .here h hblocked
  · have hround := hstalled
    rw [h.read_eq, readFrom_turn hblocked] at hround
    cases hturn : turn Reader.read text l with
    | ended cur =>
        rw [hturn] at hround
        cases hround
    | stopped halt cur =>
        rw [hturn] at hround
        obtain rfl : halt = .stalled := Except.error.inj hround
        obtain ⟨part, hhanded, hinner⟩ := h.handed.2.1 (by rw [hturn]; rfl)
        exact .inside h hhanded (hpart part (h.handed.1 part hhanded).1 hinner)
    | next l' =>
        have hleft := left_lt (h.passes.within (Nat.zero_le _)) hblocked hturn
        exact of_reached hpart hstalled (.next h hturn)
termination_by text.length - l.cursor.pos
decreasing_by exact hleft.2

theorem stuck_iff : Stuck text ↔ (Reader.read text).result = .error .stalled := by
  refine ⟨Stuck.stalled, fun h => ?_⟩
  induction hn : text.length using Nat.strongRecOn generalizing text with
  | _ n ih =>
      subst hn
      exact .of_reached (fun part hpart hinner => ih part.length hpart hinner rfl) h .start

/-- Where there is no such white space at all, there is none in the way. -/
theorem not_stuck (h : ∀ c ∈ text, isStray c = false) : ¬Stuck text := by
  intro hstuck
  induction hstuck with
  | here _ hblocked =>
      obtain ⟨c, hc, hstray⟩ := hblocked
      exact absurd hstray (by simp [h c (mem_of_peek hc)])
  | inside hreached hhanded _ ih => exact ih (fun c hc => h c ((hreached.handed.1 _ hhanded).2 hc))

/-- Reading by rounds, each of which begins in front of a word.

Where white space that separates no words stands behind the blanks, a round does nothing but skip
them, and one that begins behind them does nothing at all. In all other cases a round finds the end
of the text, or stops, or moves the cursor on. No part of a round moves it back or past the end of
the text, and what is handed on to be read by itself is shorter than the text.

So as many rounds as there are characters, and one more, are enough to read a text, if they are
enough at all; and this they are, unless such white space is in the way in the text or in one of its
substitutions. -/
theorem scan_progress (text : List Char) :
    (∀ inner l,
      (l.Blocked text → turn inner text l = .next (l.ahead text) ∧
        turn inner text (l.ahead text) = .next (l.ahead text)) ∧
      (¬l.Blocked text → ∀ l', turn inner text l = .next l' →
        (l.ahead text).cursor.pos < l'.cursor.pos) ∧
      Passes inner text l.cursor (turn inner text l).scanned) ∧
    (∀ inner cur,
      (∀ name elements, Passes inner text cur (array inner text name elements cur)) ∧
      Passes inner text cur (word inner text cur) ∧
      (∀ p, Passes inner text cur (doubleQuoted inner text p cur)) ∧
      Passes inner text cur (dollar inner text cur) ∧
      (∀ depth inSingle inDouble escaped taken, Passes inner text cur
        (balancedParens text depth inSingle inDouble escaped taken cur)) ∧
      Passes inner text cur (backquoted inner text cur)) ∧
    (∀ n, text.length < n → scan n text = Reader.read text) ∧
    (∀ n, (scan n text).result ≠ .error .stalled → scan n text = Reader.read text) ∧
    ((∃ n, (scan n text).result ≠ .error .stalled) ↔ ¬Stuck text) ∧
    ((∀ c ∈ text, isStray c = false) → ¬Stuck text) := by
  refine ⟨fun inner l => ⟨fun h => ⟨turn_blocked h, ?_⟩, fun h l' hturn => turn_lt h hturn,
    passes_turn l⟩, fun inner cur => ⟨fun name elements => passes_array name elements cur,
    passes_word cur, fun p => passes_doubleQuoted p cur, passes_dollar cur,
    fun depth inSingle inDouble escaped taken =>
      passes_balancedParens depth inSingle inDouble escaped taken cur, passes_backquoted cur⟩,
    fun n hn => scan_eq_read hn, fun n h => scan_settled h, ⟨?_, ?_⟩, not_stuck⟩
  · have hturn : turn inner text (l.ahead text) = .next ((l.ahead text).ahead text) :=
      turn_blocked h.next
    obtain ⟨c, hc, -⟩ := h
    rwa [Loop.ahead_ahead hc] at hturn
  · rintro ⟨n, hn⟩ hstuck
    rw [scan_settled hn] at hn
    exact hn hstuck.stalled
  · intro hstuck
    refine ⟨text.length + 1, ?_⟩
    rw [scan_eq_read (Nat.lt_succ_self _)]
    exact fun hstalled => hstuck (stuck_iff.2 hstalled)

/-- A vertical tab separates the elements of an array and can be quoted, but between the words of a
substitution it is in the way. -/
theorem scan_progress_sample :
    (∃ n, (scan n "A=(a\x0bb) '\x0b'".toList).result ≠ .error .stalled) ∧
    ∀ n, (scan n "a $(b\x0bc)".toList).result = .error .stalled := by
  obtain ⟨-, -, hread, -, -, -⟩ := scan_progress "A=(a\x0bb) '\x0b'".toList
  obtain ⟨-, -, -, hsettled, -, -⟩ := scan_progress "a $(b\x0bc)".toList
  refine ⟨⟨12, ?_⟩, fun n => ?_⟩
  · rw [hread 12 (by decide)]
    have hdone : (Reader.read "A=(a\x0bb) '\x0b'".toList).result.isOk = true := by decide +kernel
    intro hstalled
    rw [hstalled] at hdone
    cases hdone
  · by_contra hn
    have hstalled : (Reader.read "a $(b\x0bc)".toList).result = .error .stalled := rfl
    rw [hsettled n hn] at hn
    exact hn hstalled

end ScriptRunner.Scan
