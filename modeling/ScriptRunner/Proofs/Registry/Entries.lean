import Mathlib.Data.List.Forall2
import Mathlib.Data.List.Nodup
import ScriptRunner.Registry.Load

/-!
# ScriptRunner.Proofs.Registry.Entries

What the value of an action means.

The value is tried as one thing and then as another, so that it could be taken for something that
it was not written as. `Decode.IsAction` says which scripts a value stands for without any order of
trial, and `Decode.action?_eq_some_iff` is that the reader finds these and no others. An entry that
is written down the way `Entry.toDocument` does it stands for itself.

Main statement: `Entry.toDocument_survives`.
-/

namespace ScriptRunner

/-! ## Slots

The entries of a map are read one by one into slots, each of which takes one entry at most. -/

namespace Slot

section

variable {ι : Type u} {α : Type v} (own : ι → Bool) (read? : ι → Option α)

/-- What one more item does to a slot: an item of its own fills it, if it is empty and the item can
be read. -/
def Takes (item : ι) (before after : Option α) : Prop :=
  if own item then before = none ∧ ∃ found, read? item = some found ∧ some found = after
  else before = after

/-- What a list of items does to a slot. -/
def TakesAll : List ι → Option α → Option α → Prop
  | [], before, after => before = after
  | item :: rest, before, after =>
    ∃ between, Takes own read? item before between ∧ TakesAll rest between after

end

variable {ι : Type u} {α : Type v} {own : ι → Bool} {read? : ι → Option α} {item : ι}
variable {items : List ι} {before after : Option α}

theorem takes_own (h : own item = true) :
    Takes own read? item before after ↔
      before = none ∧ ∃ found, read? item = some found ∧ some found = after := by
  rw [Takes, if_pos h]

theorem takes_other (h : own item = false) :
    Takes own read? item before after ↔ before = after := by
  rw [Takes, if_neg (by rw [h]; exact Bool.false_ne_true)]

/-- A slot that has been filled stays as it is, and there may be nothing more for it. -/
theorem takesAll_some {earlier : α} :
    TakesAll own read? items (some earlier) after ↔
      items.filter own = [] ∧ some earlier = after := by
  induction items with
  | nil => simp [TakesAll]
  | cons item rest ih =>
      rw [TakesAll]
      cases hown : own item with
      | true => simp [takes_own hown, hown]
      | false => simp [takes_other hown, ih, hown]

/-- An empty slot stays empty if there is nothing for it, and takes the one item that there is. -/
theorem takesAll_none :
    TakesAll own read? items none after ↔
      (items.filter own = [] ∧ none = after) ∨
        ∃ item found, items.filter own = [item] ∧ read? item = some found ∧
          some found = after := by
  induction items with
  | nil => simp [TakesAll]
  | cons item rest ih =>
      rw [TakesAll]
      cases hown : own item with
      | true =>
          -- the slot is full from here on, and the rest may hold nothing more for it
          simp only [takes_own hown, List.filter_cons, hown, if_pos, true_and, reduceCtorEq,
            false_and, false_or, List.cons.injEq]
          constructor
          · rintro ⟨_, ⟨found, hfound, rfl⟩, hrest⟩
            obtain ⟨hnone, hafter⟩ := takesAll_some.1 hrest
            exact ⟨item, found, ⟨rfl, hnone⟩, hfound, hafter⟩
          · rintro ⟨_, found, ⟨rfl, hnone⟩, hfound, hafter⟩
            exact ⟨some found, ⟨found, hfound, rfl⟩, takesAll_some.2 ⟨hnone, hafter⟩⟩
      | false => simp [takes_other hown, ih, hown]

end Slot

/-! ## What the values stand for -/

namespace Decode

/-- A document that is the text of a command. -/
inductive IsCommand : Document → CommandText → Prop
  | line {d : Document} {text : String} (h : d.text? = some text) : IsCommand d (.line text)
  | lines {items : List Document} {texts : List String}
    (h : List.Forall₂ (fun d text => d.text? = some text) items texts) :
    IsCommand (.list items) (.lines texts)

/-- Whether a document can be a key of a map of options at all. -/
def isLabel : Document → Bool
  | .scalar _ (.text _) => true
  | .scalar _ (.natural _) => true
  | _ => false

/-- Whether a key means one of these names: it is the name or its number. -/
def isKey (names : List String) (name : String) : Document → Bool
  | .scalar _ (.text text) => text == name
  | .scalar _ (.natural n) => names[n]? == some name
  | _ => false

/-- A document that means one of several values: its name, or a map from its name to nothing. -/
inductive IsChoice {α : Type} (all : List α) (name : α → String) : Document → α → Prop
  | name {raw : Option String} {a : α} (hmem : a ∈ all) :
    IsChoice all name (.scalar raw (.text (name a))) a
  | map {key : Document} {raw : Option String} {a : α} (hmem : a ∈ all)
    (hkey : isKey (all.map name) (name a) key = true) :
    IsChoice all name (.map [(key, .scalar raw .null)]) a

/-- A document that means a precedence or says that there is none. -/
inductive IsPrecedence : Document → Option Precedence → Prop
  | null {raw : Option String} : IsPrecedence (.scalar raw .null) none
  | choice {d : Document} {p : Precedence} (h : IsChoice Precedence.all Precedence.name d p) :
    IsPrecedence d (some p)

/-- What an option that need not be there is set to by the values that are there for it. -/
inductive IsSetting {α : Type} (means : Document → α → Prop) (otherwise : α) :
    List Document → α → Prop
  | absent : IsSetting means otherwise [] otherwise
  | present {d : Document} {a : α} (h : means d a) : IsSetting means otherwise [d] a

/-- The values that the entries of a map have for one option. -/
def valuesOf (name : String) (entries : List (Document × Document)) : List Document :=
  (entries.filter (fun e => isKey optionNames name e.1)).map Prod.snd

/-- The entries of a map that are the options of an entry. Those that mean nothing may be there. -/
structure HasOptions (entries : List (Document × Document)) (text : CommandText) (fail : FailPolicy)
    (precedence : Option Precedence) : Prop where
  labels : ∀ e ∈ entries, isLabel e.1 = true
  text : ∃ d, valuesOf "cmd" entries = [d] ∧ IsCommand d text
  fail : IsSetting (IsChoice FailPolicy.all FailPolicy.name) .stop (valuesOf "fail" entries) fail
  precedence : IsSetting IsPrecedence none (valuesOf "precedence" entries) precedence

/-- A document that is an entry of a script. -/
inductive IsEntry : Document → Entry → Prop
  | plain {d : Document} {text : CommandText} (h : IsCommand d text) : IsEntry d (.plain text)
  | structured {entries : List (Document × Document)} {text : CommandText} {fail : FailPolicy}
    {precedence : Option Precedence} (h : HasOptions entries text fail precedence) :
    IsEntry (.map entries) (.structured text fail precedence)

/-- A document that is the script of an action. -/
inductive IsAction : Document → Script → Prop
  | text {d : Document} {text : String} (h : d.text? = some text) : IsAction d [.plain (.line text)]
  | entries {items : List Document} {script : Script} (h : List.Forall₂ IsEntry items script) :
    IsAction (.list items) script
  | options {entries : List (Document × Document)} {text : CommandText} {fail : FailPolicy}
    {precedence : Option Precedence} (h : HasOptions entries text fail precedence) :
    IsAction (.map entries) [.structured text fail precedence]

/-! ## What the reader finds -/

theorem mapM_eq_some_iff {α β : Type} {f : α → Option β} {items : List α} {found : List β} :
    items.mapM f = some found ↔ List.Forall₂ (fun a b => f a = some b) items found := by
  induction items generalizing found with
  | nil => simp [eq_comm]
  | cons item rest ih =>
      rw [List.mapM_cons, List.forall₂_cons_left_iff]
      simp only [Option.bind_eq_bind, Option.bind_eq_some_iff, ih, Option.pure_def,
        Option.some.injEq]
      constructor
      · rintro ⟨b, hb, others, hothers, rfl⟩
        exact ⟨b, others, hb, hothers, rfl⟩
      · rintro ⟨b, others, hb, hothers, rfl⟩
        exact ⟨b, hb, others, hothers, rfl⟩

theorem texts?_eq_mapM (items : List Document) : texts? items = items.mapM Document.text? := by
  induction items with
  | nil => rfl
  | cons d rest ih => rw [texts?, ih, List.mapM_cons]

theorem script?_eq_mapM (items : List Document) : script? items = items.mapM entryOf := by
  induction items with
  | nil => rfl
  | cons d rest ih => rw [script?, ih, List.mapM_cons]

theorem commandText?_eq_some_iff {d : Document} {text : CommandText} :
    commandText? d = some text ↔ IsCommand d text := by
  constructor
  · intro h
    unfold commandText? at h
    split at h
    · next items =>
        obtain ⟨texts, htexts, rfl⟩ := Option.map_eq_some_iff.1 h
        rw [texts?_eq_mapM, mapM_eq_some_iff] at htexts
        exact .lines htexts
    · obtain ⟨line, hline, rfl⟩ := Option.map_eq_some_iff.1 h
      exact .line hline
  · rintro (⟨h⟩ | ⟨h⟩)
    · rw [commandText?]
      · rw [h]
        rfl
      · rintro items rfl
        cases h
    · rw [commandText?, texts?_eq_mapM, mapM_eq_some_iff.2 h]
      rfl

theorem option?_ne_none_iff {names : List String} {key : Document} :
    option? names key ≠ none ↔ isLabel key = true := by
  unfold option? isLabel
  split <;> simp

/-- The number that a key means is the number of the name that it means. -/
theorem option?_eq_iff {names : List String} (hnodup : names.Nodup) {i : Nat} {name : String}
    (hi : names[i]? = some name) {key : Document} :
    option? names key = some (some i) ↔ isKey names name key = true := by
  obtain ⟨hlt, hname⟩ := List.getElem?_eq_some_iff.1 hi
  unfold option? isKey
  split
  · next text =>
      rw [Option.some.injEq, List.idxOf?_eq_some_iff, beq_iff_eq]
      constructor
      · rintro ⟨_, htext, -⟩
        exact htext.symm.trans hname
      · rintro rfl
        -- no earlier number can be meant, since no name is there twice
        exact ⟨hlt, hname, fun j hj hsame =>
          Nat.ne_of_lt hj (hnodup.getElem_inj_iff.1 (hsame.trans hname.symm))⟩
  · next n =>
      rw [beq_iff_eq, ← hi, Option.some.injEq, Eq.comm (b := names[i]?),
        List.getElem?_inj hlt hnodup]
      split
      · rw [Option.some.injEq, eq_comm]
      · next hn =>
          simp only [reduceCtorEq, false_iff]
          rintro rfl
          exact hn hlt
  · simp

theorem choice?_eq_some_iff {α : Type} {all : List α} {name : α → String}
    (hnodup : (all.map name).Nodup) {d : Document} {a : α} :
    choice? all name d = some a ↔ IsChoice all name d a := by
  constructor
  · intro h
    unfold choice? at h
    split at h
    · next text =>
        have hname : name a = text :=
          beq_iff_eq.1 (List.find?_some (p := fun b => name b == text) h)
        exact hname ▸ .name (List.mem_of_find?_eq_some h)
    · next key raw =>
        obtain ⟨_ | i, hi, h⟩ := Option.bind_eq_some_iff.1 h
        · cases h
        obtain ⟨j, hj, ha⟩ := Option.bind_eq_some_iff.1 h
        obtain rfl := Option.some.inj hj
        exact .map (List.mem_of_getElem? ha)
          ((option?_eq_iff hnodup (by rw [List.getElem?_map, ha]; rfl)).1 hi)
    · cases h
  · rintro (⟨hmem⟩ | ⟨hmem, hkey⟩)
    · -- the names are distinct, so that the first one that fits is the right one
      rw [choice?, List.find?_eq_some_iff_append]
      obtain ⟨before, behind, rfl⟩ := List.append_of_mem hmem
      refine ⟨beq_self_eq_true _, before, behind, rfl, fun b hb => ?_⟩
      rw [List.map_append, List.map_cons, List.nodup_append] at hnodup
      have hne := hnodup.2.2 (name b) (List.mem_map_of_mem hb) (name a) List.mem_cons_self
      simpa using hne
    · obtain ⟨i, hi⟩ := List.getElem?_of_mem hmem
      rw [choice?, (option?_eq_iff hnodup (by rw [List.getElem?_map, hi]; rfl)).2 hkey]
      exact hi

theorem precedence?_eq_some_iff {d : Document} {p : Option Precedence} :
    precedence? d = some p ↔ IsPrecedence d p := by
  constructor
  · intro h
    unfold precedence? at h
    split at h
    · obtain rfl := Option.some.inj h
      exact .null
    · obtain ⟨p, hp, rfl⟩ := Option.map_eq_some_iff.1 h
      exact .choice ((choice?_eq_some_iff (by decide)).1 hp)
  · rintro (_ | ⟨hchoice⟩)
    · rfl
    · rw [precedence?, (choice?_eq_some_iff (by decide)).2 hchoice]
      · rfl
      · rintro raw rfl
        cases hchoice

/-! ## Options -/

/-- Whether an entry of a map is for this option. -/
def isFor (name : String) (e : Document × Document) : Bool :=
  isKey optionNames name e.1

theorem isFor_eq {i : Nat} {name : String} (hi : optionNames[i]? = some name)
    (e : Document × Document) :
    isFor name e = (option? optionNames e.1 == some (some i)) := by
  rw [Bool.eq_iff_iff, isFor, ← option?_eq_iff (by decide) hi, beq_iff_eq]

theorem readOption_eq_some_iff {o p : Options} {e : Document × Document} :
    readOption o e.1 e.2 = some p ↔
      isLabel e.1 = true ∧
        Slot.Takes (isFor "cmd") (fun e => commandText? e.2) e o.text p.text ∧
        Slot.Takes (isFor "fail") (fun e => choice? FailPolicy.all FailPolicy.name e.2) e o.fail
          p.fail ∧
        Slot.Takes (isFor "precedence") (fun e => precedence? e.2) e o.precedence p.precedence := by
  obtain ⟨text, fail, precedence⟩ := o
  obtain ⟨text', fail', precedence'⟩ := p
  have hcmd := isFor_eq (i := 0) rfl e
  have hfail := isFor_eq (i := 1) rfl e
  have hprecedence := isFor_eq (i := 2) rfl e
  rw [readOption, ← option?_ne_none_iff]
  -- one case for each option: its own slot is filled, and the others stay as they are
  match hoption : option? optionNames e.1 with
  | none => simp
  | some (some 0) =>
      rw [hoption] at hcmd hfail hprecedence
      rw [Slot.takes_own hcmd, Slot.takes_other hfail, Slot.takes_other hprecedence]
      cases text with
      | none => cases commandText? e.2 <;> simp [and_comm]
      | some earlier => simp
  | some (some 1) =>
      rw [hoption] at hcmd hfail hprecedence
      rw [Slot.takes_other hcmd, Slot.takes_own hfail, Slot.takes_other hprecedence]
      cases fail with
      | none =>
          cases choice? FailPolicy.all FailPolicy.name e.2 <;> simp [and_comm]
      | some earlier => simp
  | some (some 2) =>
      rw [hoption] at hcmd hfail hprecedence
      rw [Slot.takes_other hcmd, Slot.takes_other hfail, Slot.takes_own hprecedence]
      cases precedence with
      | none => cases precedence? e.2 <;> simp [and_comm]
      | some earlier => simp
  | some none =>
      rw [hoption] at hcmd hfail hprecedence
      rw [Slot.takes_other hcmd, Slot.takes_other hfail, Slot.takes_other hprecedence]
      simp
  | some (some (i + 3)) =>
      rw [hoption] at hcmd hfail hprecedence
      rw [Slot.takes_other (by simp [hcmd]), Slot.takes_other (by simp [hfail]),
        Slot.takes_other (by simp [hprecedence])]
      simp

theorem readOptions_eq_some_iff {o p : Options} {entries : List (Document × Document)} :
    readOptions o entries = some p ↔
      (∀ e ∈ entries, isLabel e.1 = true) ∧
        Slot.TakesAll (isFor "cmd") (fun e => commandText? e.2) entries o.text p.text ∧
        Slot.TakesAll (isFor "fail") (fun e => choice? FailPolicy.all FailPolicy.name e.2) entries
          o.fail p.fail ∧
        Slot.TakesAll (isFor "precedence") (fun e => precedence? e.2) entries o.precedence
          p.precedence := by
  induction entries generalizing o with
  | nil =>
      obtain ⟨text, fail, precedence⟩ := o
      obtain ⟨text', fail', precedence'⟩ := p
      simp [readOptions, Slot.TakesAll]
  | cons e rest ih =>
      rw [readOptions, Option.bind_eq_bind, Option.bind_eq_some_iff]
      simp only [readOption_eq_some_iff, ih, List.forall_mem_cons, Slot.TakesAll]
      constructor
      · rintro ⟨next, ⟨hlabel, ht, hf, hp⟩, hlabels, hts, hfs, hps⟩
        exact ⟨⟨hlabel, hlabels⟩, ⟨_, ht, hts⟩, ⟨_, hf, hfs⟩, ⟨_, hp, hps⟩⟩
      · rintro ⟨⟨hlabel, hlabels⟩, ⟨text, ht, hts⟩, ⟨fail, hf, hfs⟩, ⟨precedence, hp, hps⟩⟩
        exact ⟨⟨text, fail, precedence⟩, ⟨hlabel, ht, hf, hp⟩, hlabels, hts, hfs, hps⟩

theorem isSetting_iff {α : Type} {means : Document → α → Prop} {otherwise a : α}
    {values : List Document} :
    IsSetting means otherwise values a ↔
      (values = [] ∧ a = otherwise) ∨ ∃ d, values = [d] ∧ means d a := by
  constructor
  · rintro (_ | ⟨h⟩)
    · exact Or.inl ⟨rfl, rfl⟩
    · exact Or.inr ⟨_, rfl, h⟩
  · rintro (⟨rfl, rfl⟩ | ⟨d, rfl, h⟩)
    · exact .absent
    · exact .present h

/-- An option that need not be there has been read as what it is set to. -/
theorem exists_takesAll_setting {α : Type} {name : String} {read? : Document → Option α}
    {means : Document → α → Prop} (hread : ∀ d a, read? d = some a ↔ means d a) {otherwise a : α}
    {entries : List (Document × Document)} :
    (∃ found, Slot.TakesAll (isFor name) (fun e => read? e.2) entries none found ∧
        found.getD otherwise = a) ↔
      IsSetting means otherwise (valuesOf name entries) a := by
  rw [isSetting_iff]
  simp only [Slot.takesAll_none, hread, valuesOf, List.map_eq_nil_iff, List.map_eq_singleton_iff]
  constructor
  · rintro ⟨_, ⟨hnone, rfl⟩ | ⟨e, b, hone, hb, rfl⟩, rfl⟩
    · exact Or.inl ⟨hnone, rfl⟩
    · exact Or.inr ⟨e.2, ⟨e, hone, rfl⟩, hb⟩
  · rintro (⟨hnone, rfl⟩ | ⟨_, ⟨e, hone, rfl⟩, ha⟩)
    · exact ⟨none, Or.inl ⟨hnone, rfl⟩, rfl⟩
    · exact ⟨some a, Or.inr ⟨e, a, hone, ha, rfl⟩, rfl⟩

/-- An option that has to be there has been read from the one place where it is. -/
theorem takesAll_some_iff {α : Type} {name : String} {read? : Document → Option α}
    {means : Document → α → Prop} (hread : ∀ d a, read? d = some a ↔ means d a) {a : α}
    {entries : List (Document × Document)} :
    Slot.TakesAll (isFor name) (fun e => read? e.2) entries none (some a) ↔
      ∃ d, valuesOf name entries = [d] ∧ means d a := by
  simp only [Slot.takesAll_none, hread, valuesOf, List.map_eq_singleton_iff, reduceCtorEq,
    and_false, false_or, Option.some.injEq]
  constructor
  · rintro ⟨e, _, hone, ha, rfl⟩
    exact ⟨e.2, ⟨e, hone, rfl⟩, ha⟩
  · rintro ⟨_, ⟨e, hone, rfl⟩, ha⟩
    exact ⟨e, a, hone, ha, rfl⟩

theorem structured?_eq_some_iff {entries : List (Document × Document)} {entry : Entry} :
    structured? entries = some entry ↔
      ∃ text fail precedence, HasOptions entries text fail precedence ∧
        .structured text fail precedence = entry := by
  have hcommand : ∀ d text, commandText? d = some text ↔ IsCommand d text :=
    fun _ _ => commandText?_eq_some_iff
  have hpolicy : ∀ d fail, choice? FailPolicy.all FailPolicy.name d = some fail ↔
      IsChoice FailPolicy.all FailPolicy.name d fail :=
    fun _ _ => choice?_eq_some_iff (by decide)
  have hfirm : ∀ d precedence, precedence? d = some precedence ↔ IsPrecedence d precedence :=
    fun _ _ => precedence?_eq_some_iff
  simp only [structured?, Option.bind_eq_bind, Option.bind_eq_some_iff, readOptions_eq_some_iff,
    Option.pure_def, Option.some.injEq]
  constructor
  · -- the options are read together, but each slot has seen only what is its own
    rintro ⟨⟨_, fail, precedence⟩, ⟨hlabels, hcmd, hfail, hprecedence⟩, text, rfl, rfl⟩
    exact ⟨text, fail.getD .stop, precedence.getD none, {
      labels := hlabels
      text := (takesAll_some_iff hcommand).1 hcmd
      fail := (exists_takesAll_setting hpolicy).1 ⟨fail, hfail, rfl⟩
      precedence := (exists_takesAll_setting hfirm).1 ⟨precedence, hprecedence, rfl⟩ }, rfl⟩
  · rintro ⟨text, _, _, h, rfl⟩
    obtain ⟨fail, hfail, rfl⟩ := (exists_takesAll_setting hpolicy).2 h.fail
    obtain ⟨precedence, hprecedence, rfl⟩ := (exists_takesAll_setting hfirm).2 h.precedence
    exact ⟨⟨some text, fail, precedence⟩,
      ⟨h.labels, (takesAll_some_iff hcommand).2 h.text, hfail, hprecedence⟩, text, rfl, rfl⟩

/-! ## Entries and actions -/

theorem entryOf_eq_some_iff {d : Document} {entry : Entry} :
    entryOf d = some entry ↔ IsEntry d entry := by
  constructor
  · intro h
    unfold entryOf at h
    split at h
    · obtain ⟨text, fail, precedence, hoptions, rfl⟩ := structured?_eq_some_iff.1 h
      exact .structured hoptions
    · obtain ⟨text, htext, rfl⟩ := Option.map_eq_some_iff.1 h
      exact .plain (commandText?_eq_some_iff.1 htext)
  · rintro (⟨hcommand⟩ | ⟨hoptions⟩)
    · rw [entryOf]
      · rw [commandText?_eq_some_iff.2 hcommand]
        rfl
      · rintro entries rfl
        obtain ⟨⟨⟩⟩ := hcommand
    · exact structured?_eq_some_iff.2 ⟨_, _, _, hoptions, rfl⟩

theorem script?_eq_some_iff {items : List Document} {script : Script} :
    script? items = some script ↔ List.Forall₂ IsEntry items script := by
  rw [script?_eq_mapM, mapM_eq_some_iff]
  simp only [entryOf_eq_some_iff]

/-- Whatever is tried first, an action is found to be the script that it stands for. -/
theorem action?_eq_some_iff {d : Document} {script : Script} :
    action? d = some script ↔ IsAction d script := by
  constructor
  · intro h
    unfold action? at h
    split at h
    · exact .entries (script?_eq_some_iff.1 h)
    · next hlist =>
        obtain ⟨entry, hentry, rfl⟩ := Option.map_eq_some_iff.1 h
        -- an entry on several lines is a list, and a list has been tried as a script before
        obtain ⟨⟨htext⟩ | _⟩ | ⟨hoptions⟩ := entryOf_eq_some_iff.1 hentry
        · exact .text htext
        · exact absurd rfl (hlist _)
        · exact .options hoptions
  · rintro (⟨htext⟩ | ⟨hentries⟩ | ⟨hoptions⟩)
    · rw [action?]
      · rw [entryOf_eq_some_iff.2 (.plain (.line htext))]
        rfl
      · rintro items rfl
        cases htext
    · exact script?_eq_some_iff.2 hentries
    · rw [action?]
      · rw [entryOf_eq_some_iff.2 (.structured hoptions)]
        rfl
      · rintro items ⟨⟩

end Decode

/-! ## Entries as they are written -/

namespace Document

theorem usableItems_iff {items : List Document} :
    usableItems items = true ↔ ∀ d ∈ items, d.usable = true := by
  induction items with
  | nil => simp [usableItems]
  | cons d rest ih => simp [usableItems, ih]

theorem usableEntries_iff {entries : List (Document × Document)} :
    usableEntries entries = true ↔ ∀ e ∈ entries, e.1.usable = true ∧ e.2.usable = true := by
  induction entries with
  | nil => simp [usableEntries]
  | cons e rest ih => simp [usableEntries, ih]

theorem depthOfItems_le_iff {items : List Document} {n : Nat} :
    depthOfItems items ≤ n ↔ ∀ d ∈ items, d.depth ≤ n := by
  induction items with
  | nil => simp [depthOfItems]
  | cons d rest ih => rw [depthOfItems, Nat.max_le, ih, List.forall_mem_cons]

theorem depthOfEntries_le_iff {entries : List (Document × Document)} {n : Nat} :
    depthOfEntries entries ≤ n ↔ ∀ e ∈ entries, e.1.depth ≤ n ∧ e.2.depth ≤ n := by
  induction entries with
  | nil => simp [depthOfEntries]
  | cons e rest ih => rw [depthOfEntries, Nat.max_le, Nat.max_le, ih, List.forall_mem_cons]

/-- A document that can be read where lists and maps may be nested so deep. -/
structure Fits (d : Document) (room : Nat) : Prop where
  usable : d.usable = true
  depth : d.depth ≤ room

theorem Fits.mono {d : Document} {room wider : Nat} (h : d.Fits room) (hle : room ≤ wider) :
    d.Fits wider :=
  ⟨h.usable, Nat.le_trans h.depth hle⟩

theorem fits_text (s : String) (room : Nat) : (text s).Fits room :=
  ⟨rfl, Nat.zero_le room⟩

theorem fits_list {items : List Document} {room : Nat} (h : ∀ d ∈ items, d.Fits room) :
    (list items).Fits (room + 1) where
  usable := usableItems_iff.2 (fun d hd => (h d hd).usable)
  depth := Nat.succ_le_succ (depthOfItems_le_iff.2 (fun d hd => (h d hd).depth))

theorem fits_map {entries : List (Document × Document)} {room : Nat}
    (h : ∀ e ∈ entries, e.1.Fits room ∧ e.2.Fits room) : (map entries).Fits (room + 1) where
  usable := usableEntries_iff.2 (fun e he => ⟨(h e he).1.usable, (h e he).2.usable⟩)
  depth := Nat.succ_le_succ
    (depthOfEntries_le_iff.2 (fun e he => ⟨(h e he).1.depth, (h e he).2.depth⟩))

end Document

/-- A command text as it is written. -/
def CommandText.toDocument : CommandText → Document
  | line text => .text text
  | lines texts => .list (texts.map .text)

/-- An entry as it is written: the policy always, the precedence only if there is one. -/
def Entry.toDocument : Entry → Document
  | plain text => text.toDocument
  | structured text fail precedence =>
    .map ((.text "cmd", text.toDocument) :: (.text "fail", .text fail.name) ::
      precedence.toList.map (fun p => (.text "precedence", .text p.name)))

/-- What an entry says, with the defaults filled in. -/
def Entry.normalize (e : Entry) : List String × FailPolicy × Option Precedence :=
  (e.lines, e.failPolicy, e.precedence?)

theorem CommandText.fits_toDocument (text : CommandText) : text.toDocument.Fits 1 := by
  cases text with
  | line line => exact Document.fits_text line 1
  | lines texts =>
      refine Document.fits_list (fun d hd => ?_)
      obtain ⟨line, -, rfl⟩ := List.mem_map.1 hd
      exact Document.fits_text line 0

theorem Entry.fits_toDocument (e : Entry) : e.toDocument.Fits 2 := by
  cases e with
  | plain text => exact text.fits_toDocument.mono (by decide)
  | structured text fail precedence =>
      refine Document.fits_map (fun option hoption => ?_)
      obtain rfl | rfl | hmem : option = (.text "cmd", text.toDocument) ∨
          option = (.text "fail", .text fail.name) ∨
          option ∈ precedence.toList.map (fun p => (.text "precedence", .text p.name)) := by
        simpa using hoption
      · exact ⟨Document.fits_text _ 1, text.fits_toDocument⟩
      · exact ⟨Document.fits_text _ 1, Document.fits_text _ 1⟩
      · obtain ⟨p, -, rfl⟩ := List.mem_map.1 hmem
        exact ⟨Document.fits_text _ 1, Document.fits_text _ 1⟩

namespace Decode

theorem isCommand_toDocument (text : CommandText) : IsCommand text.toDocument text := by
  cases text with
  | line line => exact .line rfl
  | lines texts => exact .lines (List.forall₂_map_left_iff.2 (List.forall₂_same.2 (fun _ _ => rfl)))

theorem isEntry_toDocument (e : Entry) : IsEntry e.toDocument e := by
  cases e with
  | plain text => exact .plain (isCommand_toDocument text)
  | structured text fail precedence =>
      have hfail : IsChoice FailPolicy.all FailPolicy.name (.text fail.name) fail :=
        .name (by cases fail <;> decide)
      have hprecedence : ∀ p, IsChoice Precedence.all Precedence.name (.text p.name) p :=
        fun p => .name (by cases p <;> decide)
      refine .structured ?_
      cases precedence with
      | none =>
          exact {
            labels := by simp [isLabel, Document.text]
            text := ⟨text.toDocument, rfl, isCommand_toDocument text⟩
            fail := .present hfail
            precedence := .absent }
      | some p =>
          exact {
            labels := by simp [isLabel, Document.text]
            text := ⟨text.toDocument, rfl, isCommand_toDocument text⟩
            fail := .present hfail
            precedence := .present (.choice (hprecedence p)) }

end Decode

/-- The script of an action that a document of this format holds for it. -/
def DocumentFormat.action? (format : DocumentFormat) (value : Document) : Option Script :=
  Decode.actionWithin? (format.room - 2) value

theorem DocumentFormat.action?_eq_some_iff {format : DocumentFormat} {d : Document}
    {script : Script} :
    format.action? d = some script ↔ d.Fits (format.room - 2) ∧ Decode.IsAction d script := by
  rw [DocumentFormat.action?, Decode.actionWithin?]
  split
  · next h =>
      rw [Bool.and_eq_true, decide_eq_true_eq] at h
      rw [Decode.action?_eq_some_iff, and_iff_right ⟨h.1, h.2⟩]
  · next h =>
      simp only [reduceCtorEq, false_iff, not_and]
      intro hfits
      rw [Bool.and_eq_true, decide_eq_true_eq] at h
      exact absurd ⟨hfits.usable, hfits.depth⟩ h

theorem Entry.parse_toDocument {text : String} {e : Entry}
    (h : Json.parse? text.toList = some e.toDocument) : Entry.parse text = .ok e := by
  have hfits : e.toDocument.Fits (DocumentFormat.room .json) := e.fits_toDocument.mono (by decide)
  have hread : (e.toDocument.usable &&
      decide (e.toDocument.depth ≤ DocumentFormat.room .json)) = true := by
    rw [hfits.usable, decide_eq_true hfits.depth]
    rfl
  rw [Entry.parse, h, Option.bind_some, if_pos hread,
    Decode.entryOf_eq_some_iff.2 (Decode.isEntry_toDocument e)]

theorem DocumentFormat.three_le_room (format : DocumentFormat) : 3 ≤ format.room - 2 := by
  cases format <;> decide

/-- Entries survive being written down. An entry that is written down is read as itself, and so is a
list of entries where a script is read. An entry alone is the script of that entry, unless it is a
list of lines, which is read as one entry for each line. What is neither a text, nor a list of
entries, nor a map with a command and with options that are good, is no action. -/
theorem Entry.toDocument_survives (format : DocumentFormat) :
    (∀ e : Entry, Decode.entryOf e.toDocument = some e ∧
      (Decode.entryOf e.toDocument).map normalize = some e.normalize ∧
      ∀ text : String, Json.parse? text.toList = some e.toDocument → Entry.parse text = .ok e) ∧
    (∀ script : Script, format.action? (.list (script.map toDocument)) = some script) ∧
    (∀ e : Entry, (∀ texts, e ≠ .plain (.lines texts)) → format.action? e.toDocument = some [e]) ∧
    (∀ texts : List String, format.action? (.list (texts.map .text)) =
      some (texts.map (fun text => .plain (.line text)))) ∧
    (∀ d : Document, d.text? = none →
      (∀ items, d = .list items → ∃ item ∈ items, ∀ e, ¬ Decode.IsEntry item e) →
      (∀ entries text fail precedence, d = .map entries →
        ¬ Decode.HasOptions entries text fail precedence) →
      format.action? d = none) := by
  have hentry := Decode.isEntry_toDocument
  have hread : ∀ e : Entry, Decode.entryOf e.toDocument = some e :=
    fun e => Decode.entryOf_eq_some_iff.2 (hentry e)
  have hscript : ∀ script : Script,
      format.action? (.list (script.map toDocument)) = some script := by
    intro script
    refine DocumentFormat.action?_eq_some_iff.2 ⟨?_, .entries ?_⟩
    · refine (Document.fits_list (fun d hd => ?_)).mono format.three_le_room
      obtain ⟨e, -, rfl⟩ := List.mem_map.1 hd
      exact e.fits_toDocument
    · exact List.forall₂_map_left_iff.2 (List.forall₂_same.2 (fun e _ => hentry e))
  refine ⟨fun e => ⟨hread e, by rw [hread e]; rfl, fun text => parse_toDocument⟩, hscript,
    fun e hline => ?_, fun texts => ?_, fun d htext hlist hmap => ?_⟩
  · refine DocumentFormat.action?_eq_some_iff.2
      ⟨e.fits_toDocument.mono (Nat.le_trans (by decide : 2 ≤ 3) format.three_le_room), ?_⟩
    match e with
    | .plain (.line text) => exact .text rfl
    | .plain (.lines texts) => exact absurd rfl (hline texts)
    | .structured text fail precedence =>
        obtain ⟨⟨⟩⟩ | ⟨hoptions⟩ := hentry (.structured text fail precedence)
        exact .options hoptions
  · -- texts in a list are entries on one line each, written down one after the other
    have hlines := hscript (texts.map (fun text => .plain (.line text)))
    rwa [List.map_map] at hlines
  · rw [Option.eq_none_iff_forall_ne_some]
    intro script hsome
    obtain ⟨-, ⟨h⟩ | ⟨hentries⟩ | ⟨hoptions⟩⟩ := DocumentFormat.action?_eq_some_iff.1 hsome
    · rw [htext] at h
      cases h
    · obtain ⟨item, hmem, hnone⟩ := hlist _ rfl
      obtain ⟨i, hi, rfl⟩ := List.getElem_of_mem hmem
      obtain ⟨hlength, hread⟩ := List.forall₂_iff_get.1 hentries
      exact hnone _ (hread i hi (hlength ▸ hi))
    · exact hmap _ _ _ _ rfl hoptions

/-- An entry with every option. -/
def Entry.withOptions : Entry :=
  .structured (.lines ["ls", "-l"]) .carryOn (some .pinned)

/-- That entry in a JSON text. -/
def Entry.withOptionsText : String :=
  "\x7b\"cmd\": [\"ls\", \"-l\"], \"fail\": \"continue\", \"precedence\": \"override\"\x7d"

theorem Entry.toDocument_survives_sample :
    Json.parse? withOptionsText.toList = some withOptions.toDocument ∧
    Entry.parse withOptionsText = .ok withOptions ∧
    DocumentFormat.action? .toml withOptions.toDocument = some [withOptions] ∧
    DocumentFormat.action? .yaml (.map [(.text "fail", .text "stop")]) = none := by
  have htext : Json.parse? withOptionsText.toList = some withOptions.toDocument := by
    decide +kernel
  obtain ⟨hread, -⟩ := toDocument_survives .json
  obtain ⟨-, -, halone, -⟩ := toDocument_survives .toml
  obtain ⟨-, -, -, -, hrejected⟩ := toDocument_survives .yaml
  refine ⟨htext, (hread withOptions).2.2 withOptionsText htext,
    halone withOptions (fun texts h => by cases h),
    hrejected (.map [(.text "fail", .text "stop")]) rfl (fun items h => by cases h) ?_⟩
  rintro entries text fail precedence h hoptions
  cases h
  obtain ⟨d, hd, -⟩ := hoptions.text
  cases hd

end ScriptRunner
