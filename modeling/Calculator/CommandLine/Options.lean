/-!
# Options of the command line

Arguments are read from left to right, and the first one that cannot be accepted decides. An
argument that starts with `--` names a flag, one that starts with `-` has a letter for each of its
flags, and any other is the expression, as is everything behind the first `--`. Each flag and the
expression can be given once.
-/

namespace Calculator

/-- The flags of the command line. -/
inductive Flag where
  | showTree
  | showBoundTree
  | verbose
  | help
  | version
  deriving DecidableEq

/-- The flag of a name. -/
def Flag.ofName? : String → Option Flag
  | "show-tree" => some .showTree
  | "show-bound-tree" => some .showBoundTree
  | "verbose" => some .verbose
  | "help" => some .help
  | "version" => some .version
  | _ => none

/-- The flag of a letter. -/
def Flag.ofLetter? : Char → Option Flag
  | 'v' => some .verbose
  | 'h' => some .help
  | 'V' => some .version
  | _ => none

/-- What the arguments ask for. -/
structure Options where
  /-- The expression to evaluate; without one there is a session. -/
  expression : Option String
  /-- Whether parse trees are shown. -/
  showTree : Bool
  /-- Whether bound trees are shown. -/
  showBoundTree : Bool
  /-- Whether the program tells what it does. -/
  verbose : Bool
  deriving DecidableEq

/-- The ways in which arguments lead to no options. -/
inductive Refusal where
  /-- The help was asked for. -/
  | help
  /-- The version was asked for. -/
  | version
  /-- There is no such flag, or there is an expression already. -/
  | unknownArgument (argument : String)
  /-- The flag was given before. -/
  | repeatedFlag (flag : Flag)
  /-- The flag was given a value. -/
  | unexpectedValue (flag : Flag)
  deriving DecidableEq

namespace Options

/-- What no arguments ask for. -/
def initial : Options := ⟨none, false, false, false⟩

/-- The options with one more flag. -/
def add (o : Options) : Flag → Except Refusal Options
  | .showTree =>
    if o.showTree then .error (.repeatedFlag .showTree) else .ok { o with showTree := true }
  | .showBoundTree =>
    if o.showBoundTree then .error (.repeatedFlag .showBoundTree)
    else .ok { o with showBoundTree := true }
  | .verbose =>
    if o.verbose then .error (.repeatedFlag .verbose) else .ok { o with verbose := true }
  | .help => .error .help
  | .version => .error .version

/-- The options with a flag that is given by its name, behind which a value may stand. -/
def addNamed (o : Options) (cs : List Char) : Except Refusal Options :=
  match Flag.ofName? (String.ofList (cs.takeWhile (· != '='))) with
  | some flag => if '=' ∈ cs then .error (.unexpectedValue flag) else o.add flag
  | none => .error (.unknownArgument (String.ofList ('-' :: '-' :: cs)))

/-- The options with the flags that are given by their letters. -/
def addLetters (o : Options) : List Char → Except Refusal Options
  | [] => .ok o
  | c :: cs =>
    match Flag.ofLetter? c with
    | some flag => do (← o.add flag).addLetters cs
    | none => .error (.unknownArgument (String.ofList ['-', c]))

/-- The options with an expression. -/
def addExpression (o : Options) (expression : String) : Except Refusal Options :=
  if o.expression.isNone then .ok { o with expression := some expression }
  else .error (.unknownArgument expression)

/-- The options with one more argument that is not `--`. A lone `-` is an expression. -/
def addArgument (o : Options) (argument : String) : Except Refusal Options :=
  match argument.toList with
  | '-' :: '-' :: cs => o.addNamed cs
  | '-' :: c :: cs => o.addLetters (c :: cs)
  | _ => o.addExpression argument

/-- The options with further arguments. -/
def addAll (o : Options) : List String → Except Refusal Options
  | [] => .ok o
  | "--" :: arguments => arguments.foldlM addExpression o
  | argument :: arguments => do (← o.addArgument argument).addAll arguments

/-- What the arguments ask for. -/
def ofArguments (arguments : List String) : Except Refusal Options := initial.addAll arguments

end Options

end Calculator
