import DemandFlow.Json.Number
import DemandFlow.Json.Text
import DemandFlow.Pull.Request

/-
  The JSON body of a pull request. `encode` writes the fields in a fixed order and leaves out
  those that are not set. `decode` takes an object, where unknown keys are passed by and no
  known key may come twice, or a list with the fields in the same order, where those at the end
  may be missing. Spans are whole nanoseconds in one word.
-/

namespace DemandFlow.Pull

open Json

/-! ## Writing -/

/-- The field `key` with a value that is written as it stands. -/
def field (key value : String) : String := "\x22" ++ key ++ "\x22:" ++ value

/-- The fields of a body, in order; those that are not set are missing. -/
def fields (r : PullRequest) : List String :=
  [field "batch" (toString r.batch)]
    ++ (if r.maxBytes = 0 then [] else [field "max_bytes" (toString r.maxBytes)])
    ++ (r.expires.map fun d => field "expires" (toString d.wireNanos)).toList
    ++ (r.heartbeat.map fun d => field "idle_heartbeat" (toString d.wireNanos)).toList
    ++ (if r.noWait then [field "no_wait" "true"] else [])

def encode (r : PullRequest) : String := "\x7b" ++ String.intercalate "," (fields r) ++ "\x7d"

/-! ## Reading one field -/

/-- The value at hand is of a kind that is not asked for: a word, a number or a text is read to
its end first, and a fault in it comes before the misfit. -/
def misfit (s : Bytes) : Fault :=
  match s with
  | [] => .truncated
  | b :: r =>
    match wordAfter? b with
    | some w =>
      match skipWord w r with
      | .error e => e
      | .ok _ => .unsuitable
    | none =>
      if b = Byte.minus then
        match readNumber false r with
        | .error e => e
        | .ok _ => .unsuitable
      else if Byte.isDigit b then
        match readNumber true s with
        | .error e => e
        | .ok _ => .unsuitable
      else if b = Byte.quote then
        match readText r with
        | .error e => e
        | .ok _ => .unsuitable
      else if b = Byte.openList || b = Byte.openObject then .unsuitable
      else .malformed

/-- Read a count that fits a word. -/
def readCount (s : Bytes) : Scanned Nat :=
  match skipBlanks s with
  | [] => .error .truncated
  | b :: r =>
    if Byte.isDigit b then
      match readNumber true (b :: r) with
      | .ok (.whole n, r') => .ok (n, r')
      | .ok _ => .error .unsuitable
      | .error e => .error e
    else .error (misfit (b :: r))

/-- Read a count or the word `null`. -/
def readOptionalCount (s : Bytes) : Scanned (Option Nat) :=
  match skipBlanks s with
  | [] => .error .truncated
  | b :: r =>
    if b = 0x6e then
      match skipWord [0x75, 0x6c, 0x6c] r with
      | .ok r' => .ok (none, r')
      | .error e => .error e
    else (readCount (b :: r)).map fun p => (some p.1, p.2)

def readFlag (s : Bytes) : Scanned Bool :=
  match skipBlanks s with
  | [] => .error .truncated
  | b :: r =>
    if b = 0x74 then (skipWord [0x72, 0x75, 0x65] r).map fun r' => (true, r')
    else if b = 0x66 then (skipWord [0x61, 0x6c, 0x73, 0x65] r).map fun r' => (false, r')
    else .error (misfit (b :: r))

/-! ## Reading a body -/

/-- The fields that have been read so far. -/
structure Fields where
  batch : Option Nat
  maxBytes : Option Nat
  expires : Option (Option Nat)
  heartbeat : Option (Option Nat)
  noWait : Option Bool

def Fields.none : Fields := ⟨.none, .none, .none, .none, .none⟩

/-- The request that complete fields describe; the number of messages is the one field that has
to be there. -/
def Fields.draft? (f : Fields) : Option PullRequest.Draft :=
  f.batch.map fun batch =>
    ⟨batch, f.maxBytes.getD 0, f.expires.join.map Span.mk, f.heartbeat.join.map Span.mk,
      f.noWait.getD false⟩

/-- Read the value of a field into the place it belongs to, unless that is taken. -/
def readInto {α : Type} (place : Option α) (read : Bytes → Scanned α) (put : α → Fields)
    (s : Bytes) : Scanned Fields :=
  match place with
  | some _ => .error .unsuitable
  | none =>
    match skipBlanks s with
    | [] => .error .truncated
    | c :: r =>
      if c = Byte.colon then (read r).map fun p => (put p.1, p.2) else .error .malformed

/-- Read the value that belongs to `key`. -/
def readMember (f : Fields) (key : String) (s : Bytes) : Scanned Fields :=
  if key = "batch" then readInto f.batch readCount (fun v => { f with batch := some v }) s
  else if key = "max_bytes" then
    readInto f.maxBytes readCount (fun v => { f with maxBytes := some v }) s
  else if key = "expires" then
    readInto f.expires readOptionalCount (fun v => { f with expires := some v }) s
  else if key = "idle_heartbeat" then
    readInto f.heartbeat readOptionalCount (fun v => { f with heartbeat := some v }) s
  else if key = "no_wait" then
    readInto f.noWait readFlag (fun v => { f with noWait := some v }) s
  else
    readInto (Option.none : Option Unit) (fun r => (skipValue r).map fun r' => ((), r'))
      (fun _ => f) s

/-- Read a key, whose opening quote is the next byte, and its value. -/
def readEntry (f : Fields) (s : Bytes) : Scanned Fields :=
  match s with
  | [] => .error .truncated
  | b :: r =>
    if b = Byte.quote then
      match readText r with
      | .error e => .error e
      | .ok (key, r') => readMember f key r'
    else .error .malformed

/-- Read the entries of an object up to its closing brace, which stays; `first` says that none
came before. At most `fuel` entries are read. -/
def readEntries : Nat → Bool → Fields → Bytes → Scanned Fields
  | 0, _, _, _ => .error .truncated
  | fuel + 1, first, f, s =>
    match skipBlanks s with
    | [] => .error .truncated
    | b :: r =>
      if b = Byte.closeObject then .ok (f, b :: r)
      else if first then
        match readEntry f (b :: r) with
        | .error e => .error e
        | .ok (f', r') => readEntries fuel false f' r'
      else if b = Byte.comma then
        match readEntry f (skipBlanks r) with
        | .error e => .error e
        | .ok (f', r') => readEntries fuel false f' r'
      else .error .malformed

/-- Read the next element of a list, if there is one. -/
def readElement {α : Type} (first : Bool) (read : Bytes → Scanned α) (s : Bytes) :
    Scanned (Option α) :=
  match skipBlanks s with
  | [] => .error .truncated
  | b :: r =>
    if b = Byte.closeList then .ok (none, b :: r)
    else if first then (read (b :: r)).map fun p => (some p.1, p.2)
    else if b = Byte.comma then
      match skipBlanks r with
      | [] => .error .truncated
      | c :: r' =>
        if c = Byte.closeList then .error .malformed
        else (read (c :: r')).map fun p => (some p.1, p.2)
    else .error .malformed

/-- Read the fields as the elements of a list; its closing bracket stays. -/
def readElements (s : Bytes) : Except Fault (Fields × Bytes) := do
  let (batch, s) ← readElement true readCount s
  match batch with
  | none => .error .unsuitable
  | some batch =>
    let (maxBytes, s) ← readElement false readCount s
    let (expires, s) ← readElement false readOptionalCount s
    let (heartbeat, s) ← readElement false readOptionalCount s
    let (noWait, s) ← readElement false readFlag s
    pure (⟨some batch, maxBytes, expires, heartbeat, noWait⟩, s)

/-- Pass the bracket that closes a list. -/
def closeList (s : Bytes) : Except Fault Bytes :=
  match skipBlanks s with
  | [] => .error .truncated
  | b :: r => if b = Byte.closeList then .ok r else .error .malformed

/-- Only blanks may follow a body. -/
def atEnd (s : Bytes) : Except Fault Unit :=
  if (skipBlanks s).isEmpty then .ok () else .error .malformed

/-- The fields of a body. -/
def readFields (s : Bytes) : Except Fault PullRequest.Draft :=
  match skipBlanks s with
  | [] => .error .truncated
  | b :: r =>
    if b = Byte.openObject then do
      let (f, rest) ← readEntries (r.length + 1) true Fields.none r
      match f.draft? with
      | none => .error .unsuitable
      | some d =>
        atEnd (rest.drop 1)
        pure d
    else if b = Byte.openList then do
      let (f, rest) ← readElements r
      let rest ← closeList rest
      match f.draft? with
      | none => .error .unsuitable
      | some d =>
        atEnd rest
        pure d
    else .error (misfit (b :: r))

/-- Why a body is refused: it cannot be read, or it asks for no message. -/
inductive Refusal where
  | fault (f : Fault)
  | invalid (e : ConfigError)
deriving DecidableEq

/-- Read a body. -/
def decode (body : Bytes) : Except Refusal PullRequest :=
  match readFields body with
  | .error f => .error (.fault f)
  | .ok d =>
    match d.build with
    | .error e => .error (.invalid e)
    | .ok r => .ok r

end DemandFlow.Pull
