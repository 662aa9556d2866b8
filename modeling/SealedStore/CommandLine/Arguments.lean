/-
  The arguments of the command line.

  Options and flags may stand before the subcommand and after it, which makes two levels with
  the same rules.  A word, and a value that stands apart from its option, is checked only when
  the next option, flag or word is taken or the level ends; an argument that nothing takes is
  reported before that.  An option that stands
  on both levels counts as it stands after the subcommand.
-/
import SealedStore.Store.SlotName

namespace SealedStore

/-- How values are printed. -/
inductive OutputFormat where
  | text | json
  deriving DecidableEq, Repr

/-- What the program is to do. -/
inductive Command where
  /-- Write the samples and read them back. -/
  | run
  /-- Print the value in a slot. -/
  | print (slot : SlotName)
  /-- Show the bytes in a slot. -/
  | dump (slot : SlotName)
  /-- List the slots. -/
  | list
  /-- Print the values in a file of pickles. -/
  | pickle (file : String)

/-- Why the arguments end the program. -/
inductive Usage where
  | unknownArgument
  | invalidValue
  /-- A value that is no slot name. -/
  | valueValidation
  | missingRequiredArgument
  | invalidSubcommand
  /-- The same option or flag twice on one level. -/
  | argumentConflict
  /-- A value for a flag. -/
  | tooManyValues
  | displayHelp
  | displayVersion
  deriving DecidableEq, Repr

/-- The exit code: asking for help or for the version is no mistake. -/
def Usage.exitCode : Usage → Nat
  | .displayHelp | .displayVersion => 0
  | _ => 2

namespace Arguments

/-- An option, which takes a value. -/
inductive Key where
  | format | dataDir | config
  deriving DecidableEq, Repr

/-- A flag, which takes none. -/
inductive Flag where
  | verbose | create | noVerify | help | version
  deriving DecidableEq, Repr

/-- A subcommand. -/
inductive Subcommand where
  | run | print | dump | list | pickle | help
  deriving DecidableEq, Repr

/-- What a long name stands for. -/
def long? : String → Option (Key ⊕ Flag)
  | "format" => some (.inl .format)
  | "data-dir" => some (.inl .dataDir)
  | "config" => some (.inl .config)
  | "verbose" => some (.inr .verbose)
  | "create" => some (.inr .create)
  | "no-verify" => some (.inr .noVerify)
  | "help" => some (.inr .help)
  | "version" => some (.inr .version)
  | _ => none

/-- What a letter after a hyphen stands for. -/
def short? : Char → Option Flag
  | 'v' => some .verbose
  | 'h' => some .help
  | 'V' => some .version
  | _ => none

/-- The subcommand of a name. -/
def Subcommand.ofName? : String → Option Subcommand
  | "run" => some .run
  | "show" => some .print
  | "dump" => some .dump
  | "list" => some .list
  | "pickle" => some .pickle
  | "help" => some .help
  | _ => none

/-- What an argument looks like. -/
inductive Shape where
  /-- `--` alone: what follows are words. -/
  | escape
  /-- `--name` or `--name=value`. -/
  | long (name : String) (value : Option String)
  /-- `-abc`. -/
  | short (letters : List Char)
  | word
  deriving DecidableEq, Repr

/-- The look of an argument.  A hyphen alone is a word. -/
def Shape.of (arg : String) : Shape :=
  match arg.toList with
  | ['-', '-'] => .escape
  | '-' :: '-' :: rest =>
    let name := String.ofList (rest.takeWhile (· != '='))
    match rest.dropWhile (· != '=') with
    | [] => .long name none
    | _ :: value => .long name (some (String.ofList value))
  | '-' :: c :: rest => .short (c :: rest)
  | _ => .word

/-- What a level takes besides options and flags. -/
inductive Position where
  /-- A subcommand: the level before it. -/
  | subcommand
  | slot
  | file
  | nothing
  deriving DecidableEq, Repr

/-- A word that was taken at its position. -/
inductive Operand where
  | slot (slot : SlotName)
  | file (path : String)

/-- What was given last and is not checked yet. -/
inductive Pending where
  | option (key : Key) (value : Option String)
  | operand (word : String)
  deriving DecidableEq, Repr

/-- What one level was given. -/
structure Level where
  format : Option OutputFormat
  dataDir : Option String
  config : Option String
  flags : List Flag
  operand : Option Operand
  pending : Option Pending
  /-- Everything that follows is a word. -/
  trailing : Bool

namespace Level

/-- A level that was given nothing. -/
def blank : Level := ⟨none, none, none, [], none, none, false⟩

/-- A path that may be an argument. -/
def path (text : String) : Except Usage String :=
  if text.isEmpty then .error .invalidValue else .ok text

/-- Sets an option that was not set on this level. -/
def set (level : Level) : Key → String → Except Usage Level
  | .format, text => do
    if level.format.isSome then .error .argumentConflict
    else match text with
      | "text" => .ok { level with format := some .text }
      | "json" => .ok { level with format := some .json }
      | _ => .error .invalidValue
  | .dataDir, text => do
    if level.dataDir.isSome then .error .argumentConflict
    else .ok { level with dataDir := some (← path text) }
  | .config, text => do
    if level.config.isSome then .error .argumentConflict
    else .ok { level with config := some (← path text) }

/-- Checks a word and takes it at its position. -/
def takeWord (level : Level) (position : Position) (word : String) : Except Usage Level :=
  match position with
  | .slot =>
    match SlotName.ofString word with
    | .ok slot => .ok { level with operand := some (.slot slot) }
    | .error _ => .error .valueValidation
  | .file => do .ok { level with operand := some (.file (← path word)) }
  | _ => .error .unknownArgument

/-- Checks what was given last. -/
def settle (level : Level) (position : Position) : Except Usage Level :=
  let settled := { level with pending := none }
  match level.pending with
  | none => .ok level
  | some (.option _ none) => .error .invalidValue
  | some (.option key (some value)) => settled.set key value
  | some (.operand word) => settled.takeWord position word

/-- Sets a flag that was not set on this level.  Help and the version are shown at once. -/
def setFlag (level : Level) (position : Position) (flag : Flag) : Except Usage Level := do
  let level ← level.settle position
  match flag with
  | .help => .error .displayHelp
  | .version => .error .displayVersion
  | flag =>
    if level.flags.contains flag then .error .argumentConflict
    else .ok { level with flags := flag :: level.flags }

/-- Only the level before the subcommand knows the version. -/
def knows (position : Position) : Flag → Bool
  | .version => position == .subcommand
  | _ => true

/-- Sets flags by their letters. -/
def setLetters (position : Position) : Level → List Char → Except Usage Level
  | level, [] => .ok level
  | level, c :: cs =>
    match (short? c).filter (knows position) with
    | some flag => do setLetters position (← level.setFlag position flag) cs
    | none => .error .unknownArgument

/-- An option without a value waits for one. -/
def waits (level : Level) : Bool :=
  match level.pending with
  | some (.option _ none) => true
  | _ => false

/-- A word was taken at its position. -/
def hasOperand (level : Level) : Bool :=
  level.operand.isSome ||
    match level.pending with
    | some (.operand _) => true
    | _ => false

/-- Takes a word that no option waits for. -/
def addWord (level : Level) (position : Position) (word : String) : Except Usage Level :=
  match position with
  | .subcommand =>
    if level.trailing && (Subcommand.ofName? word).isSome then .error .unknownArgument
    else .error .invalidSubcommand
  | .nothing => .error .unknownArgument
  | position =>
    if level.hasOperand then .error .unknownArgument
    else do .ok { ← level.settle position with pending := some (.operand word) }

/-- Takes a long option or flag. -/
def addLong (level : Level) (position : Position) (name : String) (value : Option String) :
    Except Usage Level :=
  match long? name with
  | none => .error .unknownArgument
  | some (.inl key) => do
    let level ← level.settle position
    match value with
    | some value => level.set key value
    | none => .ok { level with pending := some (.option key none) }
  | some (.inr flag) =>
    if !knows position flag then .error .unknownArgument
    else if value.isSome then .error .tooManyValues
    else level.setFlag position flag

/-- Takes one argument. -/
def add (level : Level) (position : Position) (arg : String) : Except Usage Level :=
  if level.trailing then level.addWord position arg
  else match Shape.of arg with
    | .escape => .ok { level with trailing := true }
    | .long name value => level.addLong position name value
    | .short letters => setLetters position level letters
    | .word =>
      match level.pending with
      | some (.option key none) => .ok { level with pending := some (.option key (some arg)) }
      | _ => level.addWord position arg

end Level

/-- Arguments up to the subcommand, the subcommand and the arguments after it. -/
def before : Level → List String → Except Usage (Level × Option (Subcommand × List String))
  | level, [] => .ok (level, none)
  | level, arg :: args =>
    match if level.trailing || level.waits then none else Subcommand.ofName? arg with
    | some sub => .ok (level, some (sub, args))
    | none => do before (← level.add .subcommand arg) args

/-- The position of a subcommand's own level. -/
def Subcommand.position : Subcommand → Position
  | .print | .dump => .slot
  | .pickle => .file
  | .run | .list | .help => .nothing

/-- The command that a subcommand and its operand make. -/
def Subcommand.command : Subcommand → Option Operand → Except Usage Command
  | .run, _ => .ok .run
  | .list, _ => .ok .list
  | .print, some (.slot slot) => .ok (.print slot)
  | .dump, some (.slot slot) => .ok (.dump slot)
  | .pickle, some (.file path) => .ok (.pickle path)
  | _, _ => .error .missingRequiredArgument

/-- What the words after `help` lead to. -/
def help (words : List String) : Usage :=
  match words with
  | [] => .displayHelp
  | [word] => if (Subcommand.ofName? word).isSome then .displayHelp else .invalidSubcommand
  | _ => .invalidSubcommand

/-- The level after a subcommand, with the command that it gives. -/
def after (sub : Subcommand) (args : List String) : Except Usage (Level × Command) := do
  let level ← args.foldlM (fun (level : Level) arg => level.add sub.position arg) .blank
  let level ← level.settle sub.position
  .ok (level, ← sub.command level.operand)

end Arguments

/-- What the command line asks for. -/
structure Invocation where
  command : Command
  format : OutputFormat
  dataDir : Option String
  config : Option String
  create : Bool
  noVerify : Bool

namespace Invocation

open Arguments

/-- Puts the two levels together. -/
def ofLevels (command : Command) (outer inner : Level) : Invocation where
  command
  format := (inner.format <|> outer.format).getD .text
  dataDir := inner.dataDir <|> outer.dataDir
  config := inner.config <|> outer.config
  create := outer.flags.contains .create || inner.flags.contains .create
  noVerify := outer.flags.contains .noVerify || inner.flags.contains .noVerify

/-- What arguments ask for.  Without a subcommand that is a run. -/
def ofArguments (args : List String) : Except Usage Invocation := do
  match ← before .blank args with
  | (outer, none) => .ok (ofLevels .run (← outer.settle .subcommand) .blank)
  | (_, some (.help, words)) => .error (help words)
  | (outer, some (sub, args)) => do
    let (inner, command) ← after sub args
    .ok (ofLevels command (← outer.settle .subcommand) inner)

end Invocation

end SealedStore
