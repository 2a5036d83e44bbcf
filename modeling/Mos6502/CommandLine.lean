import Mos6502.CommandLine.Draft

/-! The converter's command line, read from left to right by the rules that clap 4 documents. Two
dashes stand before a name and one before letters, which may be merged; a value follows a name
behind `=` or as the next word, and a letter also at once; behind `--` there are only filenames. An
option whose value is a word of its own, and the filename, stay pending until the next known option
or the end, and only then are checked; a word that fits nowhere is a fault at once. -/
namespace Mos6502.CommandLine

inductive Pending where
  | parameter (parameter : Parameter) (value : Option String)
  | filename (text : String)
deriving DecidableEq, Repr

structure State where
  draft : Draft := {}
  pending : Option Pending := none
  onlyNames : Bool := false
deriving DecidableEq, Repr

namespace State

def settle (state : State) : Except UsageError State :=
  match state.pending with
  | none => .ok state
  | some (.parameter parameter none) => .error (.missingValue parameter)
  | some (.parameter parameter (some text)) => do
    let draft ← state.draft.assign parameter text
    return { state with draft, pending := none }
  | some (.filename text) => do
    let draft ← state.draft.name text
    return { state with draft, pending := none }

def raise (state : State) (flag : Flag) : Except UsageError State := do
  let state ← state.settle
  let draft ← state.draft.raise flag
  return { state with draft }

def assign (state : State) (parameter : Parameter) (text : String) : Except UsageError State := do
  let state ← state.settle
  let draft ← state.draft.assign parameter text
  return { state with draft }

def await (state : State) (parameter : Parameter) : Except UsageError State := do
  let state ← state.settle
  return { state with pending := some (.parameter parameter none) }

def askHelp (state : State) : Except UsageError State := do
  let _ ← state.settle
  throw .help

def hasFilename (state : State) : Bool :=
  state.draft.filename.isSome ||
    match state.pending with
    | some (.filename _) => true
    | _ => false

def positional (state : State) (word : String) : Except UsageError State :=
  if state.hasFilename then
    .error (.unknownWord word)
  else do
    let state ← state.settle
    return { state with pending := some (.filename word) }

def letters (state : State) : List Char → Except UsageError State
  | [] => .ok state
  | letter :: rest =>
    match Switch.ofLetter? letter with
    | none => .error (.unknownWord (String.ofList ['-', letter]))
    | some .help => state.askHelp
    | some (.flag flag) => do
      let state ← state.raise flag
      state.letters rest
    | some (.parameter parameter) =>
      match rest with
      | [] => state.await parameter
      | '=' :: value => state.assign parameter (String.ofList value)
      | value => state.assign parameter (String.ofList value)

def named (state : State) (name : String) (value : Option String) : Except UsageError State :=
  match Switch.ofName? name, value with
  | none, _ => .error (.unknownWord ("--" ++ name))
  | some (.parameter parameter), some text => state.assign parameter text
  | some (.parameter parameter), none => state.await parameter
  | some (.flag flag), none => state.raise flag
  | some .help, none => state.askHelp
  | some (.flag _), some _ | some .help, some _ => .error (.surplusValue name)

def plain (state : State) (word : String) : Except UsageError State :=
  match state.pending with
  | some (.parameter parameter none) =>
    .ok { state with pending := some (.parameter parameter (some word)) }
  | _ => state.positional word

def splitValue (text : List Char) : String × Option String :=
  match text.dropWhile (· != '=') with
  | [] => (String.ofList text, none)
  | _ :: value => (String.ofList (text.takeWhile (· != '=')), some (String.ofList value))

def read (state : State) (word : String) : Except UsageError State :=
  if state.onlyNames then
    state.positional word
  else
    match word.toList with
    | ['-', '-'] => .ok { state with onlyNames := true }
    | '-' :: '-' :: text =>
      let (name, value) := splitValue text
      state.named name value
    | '-' :: letter :: rest => state.letters (letter :: rest)
    | _ => state.plain word

end State

def parse (words : List String) : Except UsageError Settings := do
  let state ← words.foldlM State.read {}
  let state ← state.settle
  state.draft.finish

end Mos6502.CommandLine
