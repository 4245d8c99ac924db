import Dataflow.KeyMap
import Dataflow.Settings
import Dataflow.Toml.Reader

/-! # Settings files

A settings file is a TOML document whose keys are settings. Each setting is a name, written as a
string or as the only key of a table that holds nothing under it.

* `Settings.ofText`: the settings of a document, or its first fault in ascending order of keys.
-/

namespace Dataflow.Settings

open Toml (Entry Tree)

/-- The keys a settings file may have. -/
def keys : List String := ["log_level", "log_format", "output"]

/-- The choice a name stands for; the message for any other name lists all of them. -/
def choose {α : Type} (name : α → String) (all : List α) (text : String) (span : Toml.Span) :
    Except Fault α :=
  match all.find? fun a => name a = text with
  | some a => .ok a
  | none => .error (.unknownName text (all.map name) span)

/-- Whether a tree is an empty array or table, all that may stand under a choice used as a key. -/
def isHollow : Tree → Bool
  | .array items => items.isEmpty
  | .table _ entries => entries.isEmpty
  | _ => false

/-- A choice, written as a string or as the only key of a table. -/
def choice {α : Type} (name : α → String) (all : List α) (e : Entry Tree) : Except Fault α :=
  match e.value with
  | .string text => choose name all text e.span
  | .table _ [inner] =>
    (choose name all inner.key.name inner.key.span).bind fun a =>
      if isHollow inner.value then .ok a else .error .filledTable
  | .table _ [] => .error .emptyTable
  | .table _ _ => .error .crowdedTable
  | _ => .error .notName

/-- Applies one entry of the file. -/
def set (s : Settings) (e : Entry Tree) : Except Fault Settings :=
  match e.key.name with
  | "log_level" => (choice Log.Level.name Log.Level.all e).map fun a => { s with level := a }
  | "log_format" => (choice Log.Layout.name Log.Layout.all e).map fun a => { s with layout := a }
  | "output" => (choice Rendering.name Rendering.all e).map fun a => { s with rendering := a }
  | other => .error (.unknownKey other keys e.key.span)

/-- The settings of a document; those it does not name have their defaults. -/
def ofText (text : String) : Except Fault Settings :=
  match Toml.Reader.document? text with
  | none => .error .malformed
  | some entries =>
    (KeyMap.ofList (entries.map fun e => (e.key.name, e))).entries.foldlM
      (fun s entry => s.set entry.2) default

end Dataflow.Settings
