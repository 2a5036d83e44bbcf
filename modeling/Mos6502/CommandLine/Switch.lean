import Mos6502.Address

namespace Mos6502.CommandLine

inductive Flag where
  | splitOnly
  | addresses
  | bytes
  | verbose
deriving DecidableEq, Repr

inductive Parameter where
  | out
  | origin
  | branches
deriving DecidableEq, Repr

inductive Switch where
  | flag (flag : Flag)
  | parameter (parameter : Parameter)
  | help
deriving DecidableEq, Repr

def Flag.name : Flag → String
  | .splitOnly => "split-only"
  | .addresses => "addresses"
  | .bytes => "bytes"
  | .verbose => "verbose"

def Parameter.name : Parameter → String
  | .out => "out"
  | .origin => "origin"
  | .branches => "branches"

def Switch.ofName? (name : String) : Option Switch :=
  if name = "split-only" then some (.flag .splitOnly)
  else if name = "addresses" then some (.flag .addresses)
  else if name = "bytes" then some (.flag .bytes)
  else if name = "verbose" then some (.flag .verbose)
  else if name = "out" then some (.parameter .out)
  else if name = "origin" then some (.parameter .origin)
  else if name = "branches" then some (.parameter .branches)
  else if name = "help" then some .help
  else none

def Switch.ofLetter? : Char → Option Switch
  | 'a' => some (.flag .addresses)
  | 'b' => some (.flag .bytes)
  | 'v' => some (.flag .verbose)
  | 'o' => some (.parameter .out)
  | 'h' => some .help
  | _ => none

inductive UsageError where
  /-- A word that fits nowhere: an unknown option, or one filename too many. -/
  | unknownWord (word : String)
  | surplusValue (option : String)
  | repeated (option : String)
  | missingValue (parameter : Parameter)
  | emptyValue (name : String)
  | unknownStyle (text : String)
  | badAddress (fault : AddressError)
  | missingFilename
  | help
deriving DecidableEq, Repr

def UsageError.exitCode : UsageError → Nat
  | .help => 0
  | _ => 2

def usage : String :=
  "Usage: [OPTIONS] <FILENAME>\n\n" ++
  "  -o, --out <DIR>          directory for binary/ and assembly/ (.)\n" ++
  "      --split-only         write the two regions only\n" ++
  "  -a, --addresses          show the address of every line\n" ++
  "  -b, --bytes              show the bytes of every instruction\n" ++
  "      --origin <HEX>       address of the program region (8000)\n" ++
  "      --branches <STYLE>   binary or target (binary)\n" ++
  "  -v, --verbose            print every line\n" ++
  "  -h, --help               print this help\n"

def UsageError.message : UsageError → String
  | .unknownWord word => "unexpected argument '" ++ word ++ "'"
  | .surplusValue option => "--" ++ option ++ " takes no value"
  | .repeated option => "--" ++ option ++ " is given twice"
  | .missingValue parameter => "--" ++ parameter.name ++ " needs a value"
  | .emptyValue name => "the value of " ++ name ++ " is empty"
  | .unknownStyle text => "'" ++ text ++ "' is neither binary nor target"
  | .badAddress fault => ": ".intercalate fault.explanation.chain
  | .missingFilename => "no filename is given"
  | .help => usage

end Mos6502.CommandLine
