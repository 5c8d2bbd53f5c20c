/-!
# ScriptRunner.Document.Basic

Documents of structured data: scalars, lists and maps.

The formats differ in what a scalar can be. A scalar therefore has two sides: the text it
is written with, which is what counts where it is the key of a map, and the value it
stands for. A value that a format can write and that no reader of values accepts (a
number beyond all bounds, a foreign tag) is `Scalar.unusable`: the document is good as
long as nobody asks for it.
-/

namespace ScriptRunner

/-- What a scalar stands for. -/
inductive Scalar
  | null
  | boolean (value : Bool)
  /-- A whole number that is not negative. -/
  | natural (value : Nat)
  /-- Any other number. -/
  | number
  | text (value : String)
  /-- Nothing that can be read as a value. -/
  | unusable
  deriving DecidableEq, Repr

/-- A document, or a part of one. -/
inductive Document
  /-- A scalar, with the text it is written with, if that is a text at all. -/
  | scalar (raw : Option String) (value : Scalar)
  | list (items : List Document)
  | map (entries : List (Document × Document))
  /-- A list or map under a foreign tag. It cannot be read as a value either, but the tag
  does not matter where the kind of the content is known. -/
  | tagged (content : Document)

namespace Document

/-- A text. -/
def text (s : String) : Document := .scalar (some s) (.text s)

/-- The text of a document that is one. -/
def text? : Document → Option String
  | .scalar _ (.text s) => some s
  | _ => none

/-- The text of a document where it is the key of a map. -/
def key? : Document → Option String
  | .scalar raw _ => raw
  | _ => none

mutual

/-- The number of lists and maps around the innermost part. -/
def depth : Document → Nat
  | .scalar _ _ => 0
  | .list items => depthOfItems items + 1
  | .map entries => depthOfEntries entries + 1
  | .tagged content => content.depth

/-- The greatest depth of several documents. -/
def depthOfItems : List Document → Nat
  | [] => 0
  | d :: rest => max d.depth (depthOfItems rest)

/-- The greatest depth of keys and values. -/
def depthOfEntries : List (Document × Document) → Nat
  | [] => 0
  | (k, v) :: rest => max (max k.depth v.depth) (depthOfEntries rest)

end

mutual

/-- Whether every part can be read as a value. -/
def usable : Document → Bool
  | .scalar _ value => value != .unusable
  | .list items => usableItems items
  | .map entries => usableEntries entries
  | .tagged _ => false

/-- Whether all of several documents can be read as values. -/
def usableItems : List Document → Bool
  | [] => true
  | d :: rest => d.usable && usableItems rest

/-- Whether all keys and values can be read as values. -/
def usableEntries : List (Document × Document) → Bool
  | [] => true
  | (k, v) :: rest => k.usable && v.usable && usableEntries rest

end

/-- The document without a tag around it. -/
def untagged : Document → Document
  | .tagged content => content
  | other => other

mutual

/-- Documents are compared part by part. -/
protected def decEq : (d e : Document) → Decidable (d = e)
  | .scalar raw value, .scalar raw' value' =>
    decidable_of_iff (raw = raw' ∧ value = value') (by simp)
  | .list items, .list items' =>
    have := decEqItems items items'
    decidable_of_iff (items = items') (by simp)
  | .map entries, .map entries' =>
    have := decEqEntries entries entries'
    decidable_of_iff (entries = entries') (by simp)
  | .tagged content, .tagged content' =>
    have := Document.decEq content content'
    decidable_of_iff (content = content') (by simp)
  | .scalar .., .list .. | .scalar .., .map .. | .scalar .., .tagged ..
  | .list .., .scalar .. | .list .., .map .. | .list .., .tagged ..
  | .map .., .scalar .. | .map .., .list .. | .map .., .tagged ..
  | .tagged .., .scalar .. | .tagged .., .list .. | .tagged .., .map .. => isFalse nofun

/-- Lists of documents are compared item by item. -/
def decEqItems : (items items' : List Document) → Decidable (items = items')
  | [], [] => isTrue rfl
  | d :: rest, e :: rest' =>
    have := Document.decEq d e
    have := decEqItems rest rest'
    decidable_of_iff (d = e ∧ rest = rest') (by simp)
  | [], _ :: _ | _ :: _, [] => isFalse nofun

/-- Entries are compared by their keys and values. -/
def decEqEntries : (entries entries' : List (Document × Document)) →
    Decidable (entries = entries')
  | [], [] => isTrue rfl
  | (k, v) :: rest, (k', v') :: rest' =>
    have := Document.decEq k k'
    have := Document.decEq v v'
    have := decEqEntries rest rest'
    decidable_of_iff ((k = k' ∧ v = v') ∧ rest = rest') (by simp)
  | [], _ :: _ | _ :: _, [] => isFalse nofun

end

instance : DecidableEq Document := Document.decEq

end Document

end ScriptRunner
