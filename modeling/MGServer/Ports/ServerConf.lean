import MGServer.Ports.TinyXml
import MGServer.Verified.Assignments

/-!
# The server configuration

Port of `server/source/ServerConf.cpp`.  The four loaders are one loop with
four tables: each opens the file anew, takes the first root element, the first
section of its name under it and, from the section's first `value` element on,
every sibling element, and writes what an entry says straight into the live
structure.  An attribute that is not there is a null pointer, which the loop
hands to `strcmp`, `atoi`, a `std::string` or the stream: `crashed`.

A number goes through `atoi` of a system whose `long` has 64 bits and is
stored reduced to the unsigned width of the field.
-/

namespace MGServer.Ports.ServerConf

open MGServer.Verified.ByteString
open MGServer.Verified.Assignments
open MGServer.Ports.TinyXml

structure stAddressInfo where
  serverIp : Bytes := []
  port : UInt32 := 0
  maxEvents : UInt32 := 0
  backlog : UInt32 := 0
  WorkerThreadTaskMax : UInt32 := 0
  timeCheckAcceptClient : UInt32 := 0
  deriving Repr, DecidableEq

structure stLoggerInfo where
  LoggerName : Bytes := []
  LogFilePath : Bytes := []
  hour : UInt8 := 0
  minutes : UInt8 := 0
  flushCache : UInt8 := 0
  deriving Repr, DecidableEq

structure stRedisInfo where
  redisAddress : Bytes := []
  redisPort : UInt32 := 0
  deriving Repr, DecidableEq

structure stUniqueInfo where
  serverID : Bytes := []
  deriving Repr, DecidableEq

/-- The members of `ServerConf`, as the constructor leaves them. -/
structure Conf where
  AddressInfo : stAddressInfo := {}
  LoggerInfo : stLoggerInfo := {}
  RedisInfo : stRedisInfo := {}
  UniqueInfo : stUniqueInfo := {}
  bAllConfLoadedRight : Bool := true
  deriving Repr, DecidableEq

def Conf.hasLoadConfRight (s : Conf) : Bool := s.bAllConfLoadedRight

/-- What `doc.LoadFile` gives: the document's nodes, or nothing when it
returns false. -/
abbrev File := Option (List Node)

/-- How a loader ends: it returns true or false, having left its structure in
some state, or it has used a null pointer. -/
inductive Load (α : Type) where
  | loaded (st : α)
  | failed (st : α)
  | crashed
  deriving Repr, DecidableEq

def Load.map {α γ : Type} (f : α → γ) : Load α → Load γ
  | .loaded st => .loaded (f st)
  | .failed st => .failed (f st)
  | .crashed => .crashed

/-- Go on with the next loader if this one returned true. -/
def Load.andThen {α : Type} (l : Load α) (k : α → Load α) : Load α :=
  match l with
  | .loaded st => k st
  | other => other

/-- A section of the file: its element's name and what its entries set. -/
structure Section (α : Type) where
  name : Bytes
  rules : List (Rule Bytes Bytes α)

/-! ## The loop -/

section Loop

variable {α : Type} (sec : Section α)

/-- The body of the loop, for one element.  A type that is none of the section's
is printed with its value: a null pointer handed to the stream counts as
`crashed` here, where libstdc++ sets `badbit` and the loader returns false. -/
def loadEntry (e : Element) (st : α) : Load α :=
  match e.attribute (bytesOf "type") with
  | none => .crashed
  | some type =>
      match ruleFor sec.rules type, e.attribute (bytesOf "value") with
      | some rule, some value => .loaded (rule.assign value st)
      | none, some _ => .failed st
      | _, none => .crashed

/-- The loop from the element after `NextSiblingElement()` on. -/
def loadSiblings : List Node → α → Load α
  | [], st => .loaded st
  | node :: rest, st =>
      match node.toElement with
      | none => loadSiblings rest st
      | some e => (loadEntry sec e st).andThen (loadSiblings rest)

/-- The four loaders: `LoadFile`, the root, the section, the loop. -/
def loadSection (file : File) (st : α) : Load α :=
  match file with
  | none => .failed st
  | some doc =>
      match firstChildElement doc with
      | none => .failed st
      | some server =>
          match firstChildElementNamed sec.name server.element.children with
          | none => .failed st
          | some info =>
              match firstChildElementNamed (bytesOf "value") info.element.children with
              | none => .loaded st
              | some p => (loadEntry sec p.element st).andThen (loadSiblings sec p.next)

end Loop

/-! ## The four sections -/

def toUInt32 (value : Bytes) : UInt32 := UInt32.ofInt (atoi value)
def toUInt8 (value : Bytes) : UInt8 := UInt8.ofInt (atoi value)

def addressSection : Section stAddressInfo where
  name := bytesOf "addressInfo"
  rules :=
    [⟨bytesOf "serverIp", fun v st => { st with serverIp := v }⟩,
      ⟨bytesOf "port", fun v st => { st with port := toUInt32 v }⟩,
      ⟨bytesOf "maxevents", fun v st => { st with maxEvents := toUInt32 v }⟩,
      ⟨bytesOf "backlog", fun v st => { st with backlog := toUInt32 v }⟩,
      ⟨bytesOf "WorkerThreadTaskMax",
        fun v st => { st with WorkerThreadTaskMax := toUInt32 v }⟩,
      ⟨bytesOf "timeCheckAcceptClient",
        fun v st => { st with timeCheckAcceptClient := toUInt32 v }⟩]

def loggerSection : Section stLoggerInfo where
  name := bytesOf "loggerinfo"
  rules :=
    [⟨bytesOf "LoggerName", fun v st => { st with LoggerName := v }⟩,
      ⟨bytesOf "LogFilePath", fun v st => { st with LogFilePath := v }⟩,
      ⟨bytesOf "hour", fun v st => { st with hour := toUInt8 v }⟩,
      ⟨bytesOf "minutes", fun v st => { st with minutes := toUInt8 v }⟩,
      ⟨bytesOf "flushCache", fun v st => { st with flushCache := toUInt8 v }⟩]

def redisSection : Section stRedisInfo where
  name := bytesOf "redisInfo"
  rules :=
    [⟨bytesOf "redisAddress", fun v st => { st with redisAddress := v }⟩,
      ⟨bytesOf "redisPort", fun v st => { st with redisPort := toUInt32 v }⟩]

def uniqueSection : Section stUniqueInfo where
  name := bytesOf "uniqueInfo"
  rules := [⟨bytesOf "serverID", fun v st => { st with serverID := v }⟩]

def loadServerInfo (s : Conf) (file : File) : Load Conf :=
  (loadSection addressSection file s.AddressInfo).map
    fun info => { s with AddressInfo := info }

def loadLogInfo (s : Conf) (file : File) : Load Conf :=
  (loadSection loggerSection file s.LoggerInfo).map
    fun info => { s with LoggerInfo := info }

def loadRedisInfo (s : Conf) (file : File) : Load Conf :=
  (loadSection redisSection file s.RedisInfo).map
    fun info => { s with RedisInfo := info }

def loadUniqueInfo (s : Conf) (file : File) : Load Conf :=
  (loadSection uniqueSection file s.UniqueInfo).map
    fun info => { s with UniqueInfo := info }

/-- What the file gives each of the four times it is opened. -/
structure Files where
  address : File
  logger : File
  redis : File
  unique : File

/-- One file that nobody changes during the load. -/
def Files.same (file : File) : Files := ⟨file, file, file, file⟩

def loadServerConf (s : Conf) (files : Files) : Load Conf :=
  (loadServerInfo s files.address).andThen fun s =>
  (loadLogInfo s files.logger).andThen fun s =>
  (loadRedisInfo s files.redis).andThen fun s =>
  loadUniqueInfo s files.unique

end MGServer.Ports.ServerConf
