import Mathlib.Data.List.Infix
import InferenceGateway.Posix.Regex
import InferenceGateway.Python.Secrets

/-!
# Packing for an untrusted box

`scripts/pack_for_box.sh`.  The working tree is staged into a throwaway index; what
`git ls-files` prints of it is the manifest, and both checks work on the lines of the
manifest: the deny-list matches them, and the credential scan takes each of them for the
name of a file.  What `git archive` packs is the staged tree itself.

`git` quotes a path with unusual bytes, so the line is not always the name.  And `grep` is
given the name as an operand, so a name that starts with a dash may be an option; what
`grep` does then, with the rest of the manifest on its standard input, is a parameter.
-/

namespace InferenceGateway

open Py Posix

/-! ## The names git prints -/

/-- A byte that makes `git` quote a path: control characters, the double quote, the
backslash, and what is not ASCII. -/
def unusual (c : UInt8) : Bool := c < 0x20 || c == 0x22 || c == 0x5C || 0x7F ≤ c

/-- A byte inside a quoted path. -/
def cQuote (c : UInt8) : Bytes :=
  if c == 7 then bytes "\\a" else if c == 8 then bytes "\\b" else if c == 9 then bytes "\\t"
  else if c == 10 then bytes "\\n" else if c == 11 then bytes "\\v" else if c == 12 then bytes "\\f"
  else if c == 13 then bytes "\\r" else if c == 0x22 then bytes "\\\"" else if c == 0x5C then bytes "\\\\"
  else if unusual c then [0x5C, 48 + c / 64, 48 + c / 8 % 8, 48 + c % 8]
  else [c]

/-- The path is printed in double quotes. -/
def quoted (path : Bytes) : Bool := path.any unusual

/-- The line of `git ls-files` for a path. -/
def lsFiles (path : Bytes) : Bytes :=
  if quoted path then [0x22] ++ path.flatMap cQuote ++ [0x22] else path

/-! ## The expressions -/

section Expressions

open Regex

/-- A literal part of an expression. -/
def word (s : String) : Regex UInt8 := lit (bytes s)

/-- `(^|/)`. -/
def component : Regex UInt8 := alt bol (word "/")

/-- `[^/]`. -/
def notSlash (c : UInt8) : Bool := c != 47

/-- `[a-z]`. -/
def isLower (c : UInt8) : Bool := 97 ≤ c && c ≤ 122

/-- `[A-Za-z0-9_-]`. -/
def urlsafe (c : UInt8) : Bool := isUrlsafe c.toNat

/-- `[0-9a-f]`. -/
def hex (c : UInt8) : Bool := isHex c.toNat

/-- The deny-list. -/
def denyList : List (Regex UInt8) :=
  [cat [component, word ".env", eol],
    cat [component, word ".env.", many notSlash, eol],
    cat [component, many fun c ↦ isLower c || c == 45, word "keys.json", eol],
    cat [component, many fun c ↦ isLower c || c == 95, word "api_key",
      many fun c ↦ isLower c || c == 95, eol],
    cat [component, word "logs/"],
    cat [bol, word "data/"], cat [component, word "data/"],
    cat [bol, word "knowledge/"], cat [component, word "knowledge/"],
    cat [bol, word "models/"], cat [component, word "models/"],
    cat [word ".gguf", eol],
    cat [word ".faiss", many notSlash, eol],
    cat [component, word "chat_interactions.log", eol],
    cat [component, word "token_stats.jsonl", eol],
    cat [word ".jsonl", eol]]

/-- The two exceptions. -/
def denyExceptions : List (Regex UInt8) :=
  [cat [bol, word ".env.example", eol],
    cat [bol, word "tests/fixtures/", many fun _ ↦ true, word ".jsonl", eol]]

/-- The shape of an Anthropic key. -/
def anthropicKey : Regex UInt8 := cat [word "sk-ant-", atLeast urlsafe 20]

/-- The shape of a gateway key. -/
def gatewayKey : Regex UInt8 :=
  cat [word "bkn_live_", exactly hex 12, word "_", atLeast urlsafe 30]

/-- What the credential scan looks for. -/
def credential : Regex UInt8 := alt anthropicKey gatewayKey

end Expressions

/-- On the deny-list, and not one of its exceptions. -/
def denied (line : Bytes) : Bool :=
  (denyList.any fun r ↦ r.search line) && !(denyExceptions.any fun r ↦ r.search line)

/-- The lines of a text. -/
def textLines (text : Bytes) : List Bytes := text.splitOn 10

/-- `grep -lE` of the credential expression in a file. -/
def hasCredential (content : Bytes) : Bool := (textLines content).any credential.search

/-! ## The working tree -/

/-- An entry of the staged tree, with what is packed for it: the contents of a file, or the
text of the target of a symbolic link. -/
structure Staged where
  path : Bytes
  content : Bytes
  path_ne_nil : path ≠ []
  deriving DecidableEq

/-- The working tree, and where it is.  What is staged need not be what is found there: a
sparse checkout leaves files of `HEAD` out, a symbolic link leads elsewhere, and an attribute
can make `git` store a file otherwise than it is. -/
structure WorkingTree where
  root : Bytes
  /-- There is a directory `gateway`. -/
  gateway : Bool
  /-- What is staged, `git add -A .` on top of `HEAD`, and packed. -/
  files : List Staged
  /-- The contents of the regular file a name leads to, links followed. -/
  opened : Bytes → Option Bytes

/-- What `grep` does with an operand that starts with a dash, where its standard input is
the rest of the manifest: whether it exits with success, and how many lines it reads. -/
structure Grep where
  option : (operand : Bytes) → (stdin : List Bytes) → Bool × ℕ

namespace WorkingTree

variable (t : WorkingTree) (g : Grep)

/-- `$manifest`. -/
def manifest : Bytes := [10].intercalate (t.files.map fun e ↦ lsFiles e.path)

/-- `$deny`, by lines. -/
def deny (lines : List Bytes) : List Bytes :=
  (lines.filter fun l ↦ denyList.any fun r ↦ r.search l).filter
    fun l ↦ !(denyExceptions.any fun r ↦ r.search l)

/-- `$scan_hits`: the loop over the manifest, the first so many lines of it having been read
by `grep`. -/
def scanHits : ℕ → List Bytes → List Bytes
  | _, [] => []
  | n + 1, _ :: lines => scanHits n lines
  | 0, f :: lines => match t.opened f with
    | none => scanHits 0 lines
    | some content =>
      if f.head? = some 45 then
        let (hit, eaten) := g.option f lines
        (if hit then [f] else []) ++ scanHits eaten lines
      else (if hasCredential content then [f] else []) ++ scanHits 0 lines

/-- How the script ends. -/
inductive Outcome where
  | refused (status : ℕ)
  /-- A dry run that has passed the checks. -/
  | checked
  /-- The tarball is written, with these entries. -/
  | wrote (packed : List Staged)
  deriving DecidableEq

/-- The script. -/
def pack (dryRun : Bool) : Outcome :=
  if bytes "baas-poc-templates" <:+: t.root then .refused 2
  else if !t.gateway then .refused 2
  else
    let lines := textLines t.manifest
    let fail := ((deny lines).any fun l ↦ !l.isEmpty) || !(t.scanHits g 0 lines).isEmpty
    if fail then .refused 1
    else if dryRun then .checked
    else .wrote t.files

end WorkingTree

end InferenceGateway
