import MGServer.Verified.ByteString
import MGServer.Verified.Incremental
import MGServer.Verified.Transition
import Mathlib.Algebra.Ring.Nat
import Mathlib.Algebra.Ring.Int.Defs

/-!
# The reply reader of hiredis

Port of `hiredis/linux/read.c` with the reply objects of `hiredis.c`: a buffer
that is fed in pieces, a stack of read tasks, and a reply that grows under
them.  A task for an array keeps the address of the array it fills, and every
object read below it is stored into that array as soon as it is complete; a
reply that is only half there is a tree whose missing elements are null.

`none` stands for a call that does not come back: a failed assertion, a write
outside an array or outside `rstack`, a block that is freed twice, or a loop that
does not end.  `mem` says which of the allocations succeed, counted from the
creation of the reader.
-/

namespace MGServer.Ports.RedisReader

open MGServer.Verified.ByteString
open MGServer.Verified.Incremental (Verdict collect nth)

/-! ## Reply objects -/

/-- `redisReply *`, by the `type` of what it points to. -/
inductive RedisReply where
  | null
  | string (str : Bytes)
  | array (element : List RedisReply)
  | integer (value : Int)
  | nil
  | status (str : Bytes)
  | error (str : Bytes)
  deriving Repr

/-- The `REDIS_REPLY_*` a read task can have. -/
inductive Kind where
  | string
  | array
  | integer
  | status
  | error
  deriving Repr, DecidableEq

/-- The switch over the type byte. -/
def Kind.ofByte (b : UInt8) : Option Kind :=
  if b = 45 then some .error
  else if b = 43 then some .status
  else if b = 58 then some .integer
  else if b = 36 then some .string
  else if b = 42 then some .array
  else none

/-- `parent->element[idx] = obj` for the array at an address below the root:
there has to be an array, and it has to have such an element. -/
def RedisReply.store : RedisReply → List Nat → Nat → RedisReply → Option RedisReply
  | .array element, [], idx, obj =>
      if idx < element.length then some (.array (element.set idx obj)) else none
  | .array element, i :: addr, idx, obj =>
      match element[i]? with
      | some child =>
          (child.store addr idx obj).map fun child => .array (element.set i child)
      | none => none
  | _, _, _, _ => none

/-! ## Errors -/

/-- What `__redisReaderSetError` is called for. -/
inductive Fault where
  | integerValue
  | bulkLength
  | bulkRange
  | multiBulkLength
  | multiBulkRange
  | nested
  | typeByte (byte : UInt8)
  | memory
  deriving Repr, DecidableEq

def REDIS_ERR_PROTOCOL : Nat := 4
def REDIS_ERR_OOM : Nat := 5

/-- One digit of `%02x`. -/
def hexDigit (d : Nat) : UInt8 := UInt8.ofNat (if d < 10 then 48 + d else 87 + d)

/-- `chrtos`: the byte as a quoted literal. -/
def chrtos (byte : UInt8) : Bytes :=
  if byte = 92 || byte = 34 then [34, 92, byte, 34]
  else if byte = 10 then bytesOf "\"\\n\""
  else if byte = 13 then bytesOf "\"\\r\""
  else if byte = 9 then bytesOf "\"\\t\""
  else if byte = 7 then bytesOf "\"\\a\""
  else if byte = 8 then bytesOf "\"\\b\""
  else if 32 ≤ byte && byte ≤ 126 then [34, byte, 34]
  else [34, 92, 120, hexDigit (byte.toNat / 16), hexDigit (byte.toNat % 16), 34]

/-- `r->err`. -/
def Fault.type : Fault → Nat
  | .memory => REDIS_ERR_OOM
  | _ => REDIS_ERR_PROTOCOL

/-- The text each call passes. -/
def Fault.str : Fault → Bytes
  | .integerValue => bytesOf "Bad integer value"
  | .bulkLength => bytesOf "Bad bulk string length"
  | .bulkRange => bytesOf "Bulk string length out of range"
  | .multiBulkLength => bytesOf "Bad multi-bulk length"
  | .multiBulkRange => bytesOf "Multi-bulk length out of range"
  | .nested => bytesOf "No support for nested multi bulk replies with depth > 7"
  | .typeByte byte =>
      bytesOf "Protocol error, got " ++ chrtos byte ++ bytesOf " as reply type byte"
  | .memory => bytesOf "Out of memory"

/-- `r->errstr`: what fits into 128 bytes with its NUL. -/
def Fault.errstr (f : Fault) : Bytes := f.str.take 127

/-! ## The strings of sds -/

/-- Conversion to `int`. -/
def toInt (n : Int) : Int := Int.bmod n (2 ^ 32)

theorem toInt_eq {n : Nat} (hSize : n < 2 ^ 31) : toInt n = n :=
  Int.bmod_eq_of_le (by omega) (by omega)

/-- `sdsrange`, whose two ends are `int`s; a negative one counts from the end. -/
def sdsrange (s : Bytes) (start stop : Int) : Bytes :=
  if s = [] then s
  else
    let len := toInt s.length
    let start : Int := if start < 0 then (toInt (s.length + start)).toNat else start
    let stop : Int := if stop < 0 then (toInt (s.length + stop)).toNat else stop
    if start > stop ∨ start ≥ len then []
    else
      let stop := if stop ≥ len then toInt (s.length - 1) else stop
      if start > stop then [] else (s.drop start.toNat).take (stop - start + 1).toNat

example : sdsrange (bytesOf "Hello World") 1 (-1) = bytesOf "ello World" := by decide

/-- The rest of a string from a position on, if its length fits an `int`. -/
theorem sdsrange_drop {s : Bytes} (hSize : s.length < 2 ^ 31) {n : Nat}
    (hStart : n ≤ s.length) : sdsrange s n (-1) = s.drop n := by
  unfold sdsrange
  by_cases hEmpty : s = []
  · rw [if_pos hEmpty, hEmpty, List.drop_nil]
  · have hPos : 0 < s.length := List.length_pos_iff.2 hEmpty
    have hStop : toInt ((s.length : Int) + -1) = ((s.length - 1 : Nat) : Int) := by
      rw [show (s.length : Int) + -1 = ((s.length - 1 : Nat) : Int) by omega]
      exact toInt_eq (by omega)
    simp only [if_neg hEmpty, toInt_eq hSize, hStop,
      if_neg (show ¬ (n : Int) < 0 by omega), if_pos (show (-1 : Int) < 0 by decide)]
    rw [Int.toNat_natCast]
    by_cases hEnd : n = s.length
    · rw [if_pos (by omega), hEnd, List.drop_length]
    · rw [if_neg (by omega), if_neg (by omega), if_neg (by omega), Int.toNat_natCast,
        List.take_of_length_le]
      rw [List.length_drop]
      omega

def SDS_MAX_PREALLOC : Nat := 1024 * 1024

/-- The room that `sdsMakeRoomFor` asks for when it needs more. -/
def sdsRoom (newlen : Nat) : Nat :=
  if newlen < SDS_MAX_PREALLOC then newlen * 2 else newlen + SDS_MAX_PREALLOC

/-- The header of a string that is appended to, by the bits of its lengths. -/
def sdsType (room : Nat) : Nat :=
  if room < 0xff then 8
  else if room < 0xffff then 16
  else if room < 0xffffffff then 32
  else 64

/-! ## The reader -/

/-- `redisReadTask`; a `type` of -1 is `none`, and `obj` is the address of the
array below `r->reply`. -/
structure Task where
  type : Option Kind
  elements : Int
  idx : Int
  obj : Option (List Nat)
  deriving Repr, DecidableEq

/-- `redisReader`: `rstack` from the current task down, so that `ridx` is its
length less one; `len` is the length of `buf`. -/
structure Reader where
  err : Option Fault
  buf : Bytes
  /-- The bytes `buf` has room for. -/
  alloc : Nat
  pos : Nat
  rstack : List Task
  reply : RedisReply
  /-- Allocations asked for so far. -/
  made : Nat
  deriving Repr

/-- `maxbuf`, which nothing sets to another value. -/
def REDIS_READER_MAX_BUF : Nat := 1024 * 16

/-- `redisReaderCreate`. -/
def redisReaderCreate : Reader := ⟨none, [], 0, 0, [], .null, 0⟩

/-- The bytes from the cursor on. -/
def Reader.unread (r : Reader) : Bytes := r.buf.drop r.pos

/-- `__redisReaderSetError`: the reply under construction is freed, the buffer
and the stack are cleared. -/
def setError (r : Reader) (f : Fault) : Reader :=
  { r with
    err := some f, buf := [], alloc := 0, pos := 0, rstack := [], reply := .null }

/-! ## Lines and numbers -/

/-- The search of `seekNewline` from position `pos` on, with `left` positions
before `_len`. -/
def seekFrom : Bytes → Nat → Nat → Option Nat
  | _, _, 0 => none
  | [], _, _ + 1 => none
  | c :: rest, pos, left + 1 =>
      if c = 13 then
        if rest.head? = some 10 then some pos else seekFrom rest (pos + 1) left
      else seekFrom rest (pos + 1) left

/-- `seekNewline`; `_len` is an `int`, so a length above `2^31` makes it
negative and nothing is searched. -/
def seekNewline (s : Bytes) : Option Nat :=
  seekFrom s 0 (Int.bmod ((s.length : Int) - 1) (2 ^ 32)).toNat

def ULLONG_MAX : Nat := 2 ^ 64 - 1
def LLONG_MAX : Nat := 2 ^ 63 - 1
def INT_MAX : Int := 2 ^ 31 - 1

/-- The digit loop of `string2ll`: the value, and the bytes it stopped at. -/
def digitLoop (v : Nat) : Bytes → Option (Nat × Bytes)
  | [] => some (v, [])
  | b :: rest =>
      if isDigit b then
        if v > ULLONG_MAX / 10 then none
        else if v * 10 > ULLONG_MAX - (b.toNat - 48) then none
        else digitLoop (v * 10 + (b.toNat - 48)) rest
      else some (v, b :: rest)

/-- The part of `string2ll` behind the sign. -/
def magnitude : Bytes → Option Nat
  | [] => none
  | b :: rest =>
      if 49 ≤ b && b ≤ 57 then
        match digitLoop (b.toNat - 48) rest with
        | some (v, []) => some v
        | _ => none
      else none

/-- `string2ll`. -/
def string2ll (s : Bytes) : Option Int :=
  if s = [48] then some 0
  else if s.head? = some 45 then
    match magnitude s.tail with
    | some v => if v > LLONG_MAX + 1 then none else some (-(v : Int))
    | none => none
  else
    match magnitude s with
    | some v => if v > LLONG_MAX then none else some (v : Int)
    | none => none

example : string2ll (bytesOf "-9223372036854775808") = some (-9223372036854775808) := by
  decide
example : string2ll (bytesOf "9223372036854775808") = none := by decide
example : string2ll (bytesOf "007") = none := by decide

/-- `readLine`. -/
def readLine (r : Reader) : Option (Bytes × Reader) :=
  (seekNewline r.unread).map fun len =>
    (r.unread.take len, { r with pos := r.pos + (len + 2) })

/-! ## The task stack -/

/-- `moveToNextTask`, with its two assertions. -/
def moveToNextTask : List Task → Option (List Task)
  | [] => some []
  | [_] => some []
  | cur :: prv :: rest =>
      if prv.type ≠ some .array then none
      else if cur.idx = prv.elements - 1 then moveToNextTask (prv :: rest)
      else if cur.idx < prv.elements then
        some ({ cur with type := none, elements := -1, idx := cur.idx + 1 } ::
          prv :: rest)
      else none

section Items

variable (mem : Nat → Bool)

/-- `createStringObject` and its siblings: the object is put into the array of
the parent task, if there is one.  `false` is a null result. -/
def createObject (r : Reader) (obj : RedisReply) : Option (Bool × Reader) :=
  if mem r.made then
    match r.rstack with
    | task :: parent :: _ => do
        let addr ← parent.obj
        if task.idx < 0 then none
        else
          let reply ← r.reply.store addr task.idx.toNat obj
          some (true, { r with reply, made := r.made + 1 })
    | _ => some (true, { r with made := r.made + 1 })
  else some (false, { r with made := r.made + 1 })

/-- Set reply if this is the root object. -/
def setRoot (r : Reader) (obj : RedisReply) : Reader :=
  if r.rstack.length = 1 then { r with reply := obj } else r

/-- The end of an item: create the object, set the reply if it is the root,
and move on. -/
def finishItem (r : Reader) (obj : RedisReply) : Option (Bool × Reader) := do
  let (created, r) ← createObject mem r obj
  if created then
    let r := setRoot r obj
    let rstack ← moveToNextTask r.rstack
    some (true, { r with rstack })
  else some (false, setError r .memory)

/-- The object of a line. -/
def lineObject (kind : Kind) (line : Bytes) : Option RedisReply :=
  match kind with
  | .integer => (string2ll line).map .integer
  | .error => some (.error line)
  | _ => some (.status line)

/-- `processLineItem`. -/
def processLineItem (kind : Kind) (r : Reader) : Option (Bool × Reader) :=
  match readLine r with
  | none => some (false, r)
  | some (line, r) =>
      match lineObject kind line with
      | none => some (false, setError r .integerValue)
      | some obj => finishItem mem r obj

/-- `processBulkItem`; `bytelen` and the sum with `pos` are `unsigned long`. -/
def processBulkItem (r : Reader) : Option (Bool × Reader) :=
  match seekNewline r.unread with
  | none => some (false, r)
  | some s =>
      match string2ll (r.unread.take s) with
      | none => some (false, setError r .bulkLength)
      | some len =>
          if len < -1 then some (false, setError r .bulkRange)
          else if len = -1 then finishItem mem { r with pos := r.pos + (s + 2) } .nil
          else
            let bytelen := (s + 2 + (len.toNat + 2)) % 2 ^ 64
            if (r.pos + bytelen) % 2 ^ 64 ≤ r.buf.length then
              finishItem mem { r with pos := r.pos + bytelen }
                (.string ((r.unread.drop (s + 2)).take len.toNat))
            else some (false, r)

/-- `rstack[9]`. -/
def stackSize : Nat := 9

/-- Where the object of a task is. -/
def objAddress (cur : Task) : List Task → Option (List Nat)
  | [] => some []
  | parent :: _ => parent.obj.map (· ++ [cur.idx.toNat])

/-- The new task for the elements of the array just created. -/
def pushTask (r : Reader) (elements : Int) : Option Reader :=
  match r.rstack with
  | [] => none
  | cur :: below =>
      if r.rstack.length < stackSize then
        let cur := { cur with elements := elements, obj := objAddress cur below }
        some { r with rstack := ⟨none, -1, 0, none⟩ :: cur :: below }
      else none

/-- `processMultiBulkItem`. -/
def processMultiBulkItem (r : Reader) : Option (Bool × Reader) :=
  if r.rstack.length = 9 then some (false, setError r .nested)
  else
    match readLine r with
    | none => some (false, r)
    | some (line, r) =>
        match string2ll line with
        | none => some (false, setError r .multiBulkLength)
        | some elements =>
            if elements < -1 ∨ elements > INT_MAX then
              some (false, setError r .multiBulkRange)
            else if elements = -1 then finishItem mem r .nil
            else if elements = 0 then finishItem mem r (.array [])
            else do
              let obj := RedisReply.array (List.replicate elements.toNat .null)
              let (created, r) ← createObject mem r obj
              if created then
                let r ← pushTask (setRoot r obj) elements
                some (true, r)
              else some (false, setError r .memory)

/-- The switch over the type of the current task. -/
def processTyped (kind : Kind) (r : Reader) : Option (Bool × Reader) :=
  match kind with
  | .string => processBulkItem mem r
  | .array => processMultiBulkItem mem r
  | _ => processLineItem mem kind r

/-- `processItem`. -/
def processItem (r : Reader) : Option (Bool × Reader) :=
  match r.rstack with
  | [] => none
  | cur :: below =>
      match cur.type with
      | some kind => processTyped mem kind r
      | none =>
          match r.unread with
          | [] => some (false, r)
          | byte :: _ =>
              let r := { r with pos := r.pos + 1 }
              match Kind.ofByte byte with
              | none => some (false, setError r (.typeByte byte))
              | some kind =>
                  processTyped mem kind
                    { r with rstack := { cur with type := some kind } :: below }

/-- The loop over `processItem`, for at most `fuel` rounds. -/
def processItems : Nat → Reader → Option Reader
  | 0, _ => none
  | fuel + 1, r =>
      if r.rstack = [] then some r
      else do
        let (ok, r) ← processItem mem r
        if ok then processItems fuel r else some r

/-- The return value of `redisReaderGetReply` and the reply it sets. -/
inductive Answer where
  | failed
  | ok (reply : RedisReply)
  deriving Repr

/-- The first task of a reply. -/
def startReply (r : Reader) : Reader :=
  if r.rstack = [] then { r with rstack := [⟨none, -1, -1, none⟩] } else r

/-- The part of the buffer that has been read is dropped now and then. -/
def discardRead (r : Reader) : Reader :=
  if r.pos ≥ 1024 then
    { r with buf := sdsrange r.buf (toInt r.pos) (-1), pos := 0 }
  else r

/-- `redisReaderGetReply`. -/
def redisReaderGetReply (r : Reader) : Option (Answer × Reader) :=
  if r.err.isSome then some (.failed, r)
  else if r.buf = [] then some (.ok .null, r)
  else do
    let r ← processItems mem (r.unread.length + 1) (startReply r)
    if r.err.isSome then some (.failed, r)
    else
      let r := discardRead r
      if r.rstack = [] then some (.ok r.reply, { r with reply := .null })
      else some (.ok .null, r)

/-- A large buffer with nothing in it is given back, and the new one has to be
there. -/
def renewBuffer (r : Reader) : Option Reader :=
  if r.buf = [] ∧ r.alloc > REDIS_READER_MAX_BUF then
    if mem r.made then some { r with alloc := 0, pos := 0, made := r.made + 1 }
    else none
  else some r

/-- `sdscatlen` on the buffer.  Where `sdsMakeRoomFor` uses `realloc` and it
fails, the buffer is freed there and once more with the error. -/
def appendBuffer (r : Reader) (buf : Bytes) : Option (Bool × Reader) :=
  if r.buf.length + buf.length ≤ r.alloc then
    some (true, { r with buf := r.buf ++ buf })
  else
    let alloc := sdsRoom (r.buf.length + buf.length)
    if mem r.made then
      some (true, { r with buf := r.buf ++ buf, alloc := alloc, made := r.made + 1 })
    else if sdsType alloc = sdsType r.alloc then none
    else some (false, setError { r with made := r.made + 1 } .memory)

/-- `redisReaderFeed`: `false` is `REDIS_ERR`. -/
def redisReaderFeed (r : Reader) (buf : Bytes) : Option (Bool × Reader) :=
  if r.err.isSome then some (false, r)
  else if buf = [] then some (true, r)
  else (renewBuffer mem r).bind fun r => appendBuffer mem r buf

end Items

end MGServer.Ports.RedisReader
