import ForeignCall.Fault
import ForeignCall.Settings.Document
import ForeignCall.Settings.Logging

/-!
# Configuration

A configuration has three sections, each with a default for every setting. A document may give a
section under a header, by keys with a dot, as an inline table, or as an array of its first settings
in their order. Nothing may be given twice, and nothing that has no name here.

`Configuration.parse` reads a document and then checks the settings themselves.
-/

namespace ForeignCall.Settings

/-! ## The settings -/

/-- The section of the log. -/
structure LoggingSection where
  level : String
  json : Bool
  file : Option String
  spans : Bool
  deriving DecidableEq, Repr

/-- The section of the pool of trampolines. -/
structure TrampolineSection where
  /-- How many slots are made at a time; a page of them when it is not given. -/
  slotsPerBatch : Option Nat
  /-- How many batches are made in advance. -/
  preallocated : Nat
  deriving DecidableEq, Repr

/-- The section of calls. -/
structure CallSection where
  /-- Whether signatures save the error number unless they say otherwise. -/
  savesErrno : Bool
  /-- Milliseconds between two looks of the caller of a blocking call. -/
  pollInterval : Nat
  deriving DecidableEq, Repr

/-- A configuration. -/
structure Configuration where
  logging : LoggingSection
  trampolines : TrampolineSection
  calls : CallSection
  deriving DecidableEq, Repr

/-! ## Sections of a document -/

/-- How a section of a document has been given. -/
inductive Given where
  /-- Under a header. -/
  | header
  /-- By keys with a dot. -/
  | dotted
  /-- As the value of a key. -/
  | whole
  deriving DecidableEq, Repr

/-- A section of a document: its name, how it is given, and its content. -/
structure Chapter where
  name : String
  given : Given
  content : Item

/-- The entries of a table with one more; an entry may not be given twice. -/
def Item.insert? (content : Item) (name : String) (value : Item) : Option Item :=
  match content with
  | .table entries =>
    if entries.any fun e => e.1 == [name] then none
    else some (.table (entries ++ [([name], value)]))
  | _ => none

/-- The sections with a setting added to one that is given in the given way. -/
def addSetting (chapters : List Chapter) (given : Given) (chapter name : String) (value : Item) :
    Option (List Chapter) :=
  chapters.mapM fun c =>
    if c.name = chapter then
      if c.given = given then (c.content.insert? name value).map fun content => { c with content }
      else none
    else some c

/-- The sections of the lines of a document; `current` is the one whose header came last. -/
def chaptersOf (chapters : List Chapter) (current : Option String) :
    List Line → Option (List Chapter)
  | [] => some chapters
  | .header [name] :: rest =>
    if chapters.any fun c => c.name == name then none
    else chaptersOf (chapters ++ [⟨name, .header, .table []⟩]) (some name) rest
  | .entry key value :: rest => do
    let known (name : String) : Bool := chapters.any fun c => c.name == name
    let chapters ← match current, key with
      | some chapter, [name] => addSetting chapters .header chapter name value
      | none, [chapter] =>
        if known chapter then none else some (chapters ++ [⟨chapter, .whole, value⟩])
      | none, [chapter, name] =>
        if known chapter then addSetting chapters .dotted chapter name value
        else some (chapters ++ [⟨chapter, .dotted, .table [([name], value)]⟩])
      | _, _ => none
    chaptersOf chapters current rest
  | _ => none

/-! ## Settings of a section -/

/-- The truth value of an item. -/
def Item.flag? : Item → Option Bool
  | .flag b => some b
  | _ => none

/-- The text of an item. -/
def Item.text? : Item → Option String
  | .text s => some s
  | _ => none

/-- The number of an item, which may not be negative. -/
def Item.size? : Item → Option Nat
  | .integer i => if 0 ≤ i then some i.toNat else none
  | _ => none

/-- The items of a section by the names of its settings; nothing else may be given. -/
def itemsOf (names : List String) : Item → Option (List (Option Item))
  | .table entries =>
    if entries.all fun e => names.any fun n => e.1 == [n] then
      some (names.map fun n => entries.lookup [n])
    else none
  | .list items => some (names.zipIdx.map fun (_, i) => items[i]?)
  | _ => none

/-- A setting that is given, or its default. -/
def setting {α : Type} (read : Item → Option α) (default : α) : Option Item → Option α
  | none => some default
  | some item => read item

namespace LoggingSection

/-- The section when nothing is given. -/
def default : LoggingSection := ⟨"info", false, none, false⟩

/-- The section of an item. -/
def ofItem? (item : Item) : Option LoggingSection := do
  match ← itemsOf ["level", "json", "file", "spans"] item with
  | [level, json, file, spans] =>
    return ⟨← setting Item.text? default.level level, ← setting Item.flag? default.json json,
      ← setting (fun i => i.text?.map some) default.file file,
      ← setting Item.flag? default.spans spans⟩
  | _ => none

end LoggingSection

namespace TrampolineSection

/-- The section when nothing is given. -/
def default : TrampolineSection := ⟨none, 0⟩

/-- The section of an item. -/
def ofItem? (item : Item) : Option TrampolineSection := do
  match ← itemsOf ["slots_per_batch", "prealloc_batches"] item with
  | [slots, batches] =>
    return ⟨← setting (fun i => i.size?.map some) default.slotsPerBatch slots,
      ← setting Item.size? default.preallocated batches⟩
  | _ => none

end TrampolineSection

namespace CallSection

/-- The section when nothing is given. -/
def default : CallSection := ⟨true, 10⟩

/-- The section of an item. -/
def ofItem? (item : Item) : Option CallSection := do
  match ← itemsOf ["save_errno", "blocking_poll_ms"] item with
  | [saves, interval] =>
    return ⟨← setting Item.flag? default.savesErrno saves,
      ← setting Item.size? default.pollInterval interval⟩
  | _ => none

end CallSection

/-! ## Configurations -/

namespace Configuration

/-- The configuration when nothing is given. -/
def default : Configuration := ⟨.default, .default, .default⟩

/-- A configuration with one section of a document. -/
def set? (c : Configuration) (chapter : Chapter) : Option Configuration :=
  match chapter.name with
  | "logging" => (LoggingSection.ofItem? chapter.content).map fun logging => { c with logging }
  | "trampolines" =>
    (TrampolineSection.ofItem? chapter.content).map fun trampolines => { c with trampolines }
  | "calls" => (CallSection.ofItem? chapter.content).map fun calls => { c with calls }
  | _ => none

/-- The configuration of a document, as far as its form goes. -/
def ofDocument? (source : String) : Option Configuration := do
  let chapters ← chaptersOf [] none (← readDocument source)
  chapters.foldlM set? default

/-- The check of the settings themselves. -/
def validate (c : Configuration) : Checked Unit := do
  if (Level.ofName? c.logging.level).isNone then
    throw (.argument s!"unknown log level '{c.logging.level}'")
  if c.trampolines.slotsPerBatch = some 0 then
    throw (.argument "slots_per_batch must be positive")

/-- The configuration of a document. -/
def parse (source : String) : Checked Configuration :=
  match ofDocument? source with
  | none => .error (.argument "invalid configuration")
  | some c => (fun _ => c) <$> c.validate

/-- The configuration of a file; `source` is what the file holds, if there is one. -/
def ofFile (path : String) (source : Option String) : Checked Configuration :=
  match source with
  | some source => parse source
  | none => .error (.runtime
      s!"cannot read config {path}: No such file or directory (os error 2)")

/-- A configuration put in force, unless one is in force already. -/
def install (inForce : Option Configuration) (c : Configuration) : Checked Configuration :=
  match inForce with
  | none => .ok c
  | some _ => .error (.runtime "configuration already installed")

/-- The settings of the log, where the environment takes precedence. -/
def logSettings (c : Configuration) (program : String) (env : Variables) : LogSettings :=
  let own : LogSettings := { LogSettings.default with
    level := (Level.ofName? c.logging.level).getD .info
    toFile := c.logging.file.isSome
    path := c.logging.file
    json := c.logging.json
    spans := c.logging.spans }
  own.override program env

end Configuration

end ForeignCall.Settings
