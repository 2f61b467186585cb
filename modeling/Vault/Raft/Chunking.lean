import Vault.Lib.GoRuntime
import Vault.Lib.SortedStore

/-!
# Raft log chunking

A raft log entry too large for one message is applied in chunks. go-raftchunking's
`ChunkingFSM.applyChunk` hands each chunk to a `ChunkStorage`; when the storage says that all
chunks of the operation are there, it takes them out with `FinalizeOp` and applies the
concatenation of their data. The vendored `InmemChunkStorage` keeps the chunks in a map of
slices; Vault's `FSMChunkStorage` (physical/raft/fsm.go) keeps each chunk, JSON-encoded, in the
FSM's bolt bucket under `raftchunking/<op>/<seq>`, decides completion by counting the keys of
the operation's folder in a cursor scan, and reassembles by listing that folder.

The bucket is `SortedStore.Bucket`, its cursor scans as proved there. Its values are of any
type `β` (`[]byte` in the source) and a `ChunkCodec` stands for `jsonutil.EncodeJSON` and
`DecodeJSON`. A Go map is a function, a nil pointer `none`, and a nil slice and an empty one
are both `[]`. Errors of bolt itself are not modelled: a transaction commits.
-/

namespace Vault.Raft

open GoRuntime GoStrings SortedStore

abbrev Bytes := List UInt8

/-- `raftchunking.ChunkInfo`. -/
structure ChunkInfo where
  opNum : UInt64
  sequenceNum : UInt32
  numChunks : UInt32
  term : UInt64
  data : Bytes
deriving DecidableEq, Repr

/-- A raft log carrying a chunk, its extensions unmarshalled into the chunk's numbers. -/
structure ChunkLog where
  term : UInt64
  opNum : UInt64
  sequenceNum : UInt32
  numChunks : UInt32
  data : Bytes
deriving DecidableEq, Repr

/-- The `ChunkInfo` that `applyChunk` builds from a log. -/
def ChunkLog.chunk (l : ChunkLog) : ChunkInfo :=
  ⟨l.opNum, l.sequenceNum, l.numChunks, l.term, l.data⟩

@[simp] theorem ChunkLog.chunk_opNum (l : ChunkLog) : l.chunk.opNum = l.opNum := rfl
@[simp] theorem ChunkLog.chunk_sequenceNum (l : ChunkLog) : l.chunk.sequenceNum = l.sequenceNum :=
  rfl
@[simp] theorem ChunkLog.chunk_numChunks (l : ChunkLog) : l.chunk.numChunks = l.numChunks := rfl

/-- `raftchunking.ChunkStorage`: the calls `applyChunk` makes. A `ChunkMap` is given as its
entries, in the order Go's map iteration visits them. -/
structure ChunkStorage (σ : Type) where
  storeChunk : σ → ChunkInfo → Go (Bool × σ)
  finalizeOp : σ → UInt64 → Go (List (Option ChunkInfo) × σ)
  restoreChunks : σ → List (UInt64 × List (Option ChunkInfo)) → Go σ

/-! ## `InmemChunkStorage` -/

/-- `raftchunking.InmemChunkStorage`: its `ChunkMap`. -/
structure InmemChunkStorage where
  chunks : UInt64 → Option (List (Option ChunkInfo))

namespace InmemChunkStorage

/-- `NewInmemChunkStorage`. -/
def new : InmemChunkStorage := ⟨fun _ => none⟩

/-- The test of `StoreChunk`'s loop: a slot counts when it is not nil and its data is not
empty. -/
def slotFilled : Option ChunkInfo → Bool
  | none => false
  | some c => !c.data.isEmpty

/-- `StoreChunk`: the operation's slice, made with `NumChunks` nils on its first chunk, gets
the chunk at its sequence number (the map holds the same slice); done when every slot counts. -/
def storeChunk (i : InmemChunkStorage) (chunk : ChunkInfo) : Go (Bool × InmemChunkStorage) := do
  let chunks := (i.chunks chunk.opNum).getD (List.replicate chunk.numChunks.toNat none)
  let chunks ← setIndex chunks chunk.sequenceNum.toNat (some chunk)
  let i : InmemChunkStorage := ⟨Function.update i.chunks chunk.opNum (some chunks)⟩
  pure (chunks.all slotFilled, i)

/-- `FinalizeOp`: the operation's slice, deleted from the map. -/
def finalizeOp (i : InmemChunkStorage) (opNum : UInt64) :
    Go (List (Option ChunkInfo) × InmemChunkStorage) :=
  pure ((i.chunks opNum).getD [], ⟨Function.update i.chunks opNum none⟩)

/-- `RestoreChunks`: an empty map clears the storage; otherwise the map is copied. -/
def restoreChunks (_ : InmemChunkStorage) (chunks : List (UInt64 × List (Option ChunkInfo))) :
    Go InmemChunkStorage :=
  if chunks.length = 0 then pure new
  else pure ⟨chunks.foldl (fun m e => Function.update m e.1 (some e.2)) fun _ => none⟩

end InmemChunkStorage

/-- The vendored in-memory storage. -/
def inmemStorage : ChunkStorage InmemChunkStorage :=
  ⟨InmemChunkStorage.storeChunk, InmemChunkStorage.finalizeOp,
    InmemChunkStorage.restoreChunks⟩

/-! ## The FSM's bucket -/

section FSM

variable {β : Type}

/-- `jsonutil.EncodeJSON` and `DecodeJSON` at `ChunkInfo`, into the bucket's values. -/
structure ChunkCodec (β : Type) where
  encode : ChunkInfo → β
  decode : β → Option ChunkInfo

/-- Decoding inverts encoding. -/
def ChunkCodec.Lawful (codec : ChunkCodec β) : Prop :=
  ∀ c, codec.decode (codec.encode c) = some c

/-- `strutil.AppendIfMissing`. -/
def appendIfMissing (slice : List String) (i : String) : List String :=
  if slice.contains i then slice else slice ++ [i]

/-- `key[:i+1]` for `i = strings.Index(key, "/")`: the key up to its first `/`. -/
def folderOf (key : String) : String :=
  String.ofList (key.toList.takeWhile (· != '/') ++ ['/'])

/-- `FSM.List`: the keys under `pfx`, relative to it, each folder below once. -/
def list (db : Bucket β) (pfx : String) : List String :=
  (db.scanPrefix pfx).foldl (fun keys e =>
    let key := trimPrefix e.1 pfx
    if index key '/' = -1 then keys ++ [key]
    else if keys.getLast? = some (folderOf key) then keys
    else keys ++ [folderOf key]) []

/-- `chunkingPrefix`. -/
def chunkingPrefix : String := "raftchunking/"

/-- `FSMChunkStorage.chunkPaths`: the operation's folder and the chunk's key. -/
def chunkPaths (chunk : ChunkInfo) : String × String :=
  let pfx := chunkingPrefix ++ chunk.opNum.toNat.repr ++ "/"
  (pfx, pfx ++ chunk.sequenceNum.toNat.repr)

/-- `FSMChunkStorage.StoreChunk`: in one transaction, put the encoded chunk under its key, then
count the keys of the operation's folder; done when the count is `NumChunks`. -/
def storeChunk (codec : ChunkCodec β) (db : Bucket β) (chunk : ChunkInfo) :
    Go (Bool × Bucket β) :=
  let b := codec.encode chunk
  let (pfx, key) := chunkPaths chunk
  let db := db.put key b
  let keys := (db.scanPrefix pfx).foldl (fun keys e =>
    let key := trimPrefix e.1 pfx
    if index key '/' = -1 then keys ++ [key]
    else appendIfMissing keys (folderOf key)) []
  pure (UInt32.ofNat keys.length == chunk.numChunks, db)

/-- One turn of `chunksForOpNum`'s loop, at listed key `v`: parse the sequence number, read
and decode the chunk, make the slice from its `NumChunks` if there is none yet, and place the
chunk at its sequence number. -/
def placeChunk (codec : ChunkCodec β) (db : Bucket β) (pfx : String)
    (ret : Option (List (Option ChunkInfo))) (v : String) : Go (Option (List (Option ChunkInfo))) :=
  do
  let some seqNum := parseInt v
    | throw (.error "error converting seqnum to integer")
  -- `f.f.Get` finds no entry: `entry.Value` dereferences nil
  let some value := db.get (pfx ++ v)
    | throw (.panic "invalid memory address or nil pointer dereference")
  let some ci := codec.decode value
    | throw (.error "error decoding chunkinfo json")
  let ret := ret.getD (List.replicate ci.numChunks.toNat none)
  if seqNum < 0 then throw (.panic "index out of range")
  some <$> setIndex ret seqNum.toNat (some ci)

/-- `FSMChunkStorage.chunksForOpNum`: list the operation's folder, and place each chunk read
there at its parsed sequence number, in a slice sized by the first chunk's `NumChunks`. -/
def chunksForOpNum (codec : ChunkCodec β) (db : Bucket β) (opNum : UInt64) :
    Go (List (Option ChunkInfo)) := do
  let pfx := (chunkPaths ⟨opNum, 0, 0, 0, []⟩).1
  let opChunkKeys := list db pfx
  if opChunkKeys.length = 0 then return []
  let ret ← opChunkKeys.foldlM (placeChunk codec db pfx) none
  return ret.getD []

/-- `FSMChunkStorage.GetChunks`: list `raftchunking/`, parse each name listed as an operation
number, and read that operation's chunks; an empty listing is a nil map. -/
def getChunks (codec : ChunkCodec β) (db : Bucket β) :
    Go (List (UInt64 × List (Option ChunkInfo))) := do
  let opNums := list db chunkingPrefix
  if opNums.length = 0 then return []
  opNums.foldlM (fun ret opNumStr => do
    let some opNum := parseInt opNumStr
      | throw (.error "error parsing op num during chunk saving")
    let opChunks ← wrapError "error getting chunks for op keys during chunk saving: "
      (chunksForOpNum codec db (UInt64.ofInt opNum))
    -- `ret[uint64(opNum)] = opChunks`
    pure ((ret.filter fun e => e.1 != UInt64.ofInt opNum) ++ [(UInt64.ofInt opNum, opChunks)]))
    []

/-- `FSMChunkStorage.FinalizeOp`: the operation's chunks, then `FSM.DeletePrefix` of its
folder. -/
def finalizeOp (codec : ChunkCodec β) (db : Bucket β) (opNum : UInt64) :
    Go (List (Option ChunkInfo) × Bucket β) := do
  let ret ← wrapError "error getting chunks for op keys: " (chunksForOpNum codec db opNum)
  let pfx := (chunkPaths ⟨opNum, 0, 0, 0, []⟩).1
  pure (ret, db.deletePrefix pfx)

/-- `FSMChunkStorage.RestoreChunks`: delete every chunk, then store the map's chunks again. -/
def restoreChunks (codec : ChunkCodec β) (db : Bucket β)
    (chunks : List (UInt64 × List (Option ChunkInfo))) : Go (Bucket β) := do
  let db := db.deletePrefix chunkingPrefix
  if chunks.length = 0 then return db
  chunks.foldlM (fun db e =>
    e.2.foldlM (fun db chunk =>
      match chunk with
      | none => pure db
      | some chunk =>
        if chunk.opNum ≠ e.1 then throw (.error "unexpected op number in chunk")
        else do
          let r ← wrapError "error storing chunk during restoration: " (storeChunk codec db chunk)
          pure r.2) db) db

/-- Vault's storage in the FSM's bucket. -/
def fsmStorage (codec : ChunkCodec β) : ChunkStorage (Bucket β) :=
  ⟨storeChunk codec, finalizeOp codec, restoreChunks codec⟩

end FSM

/-! ## `ChunkingFSM.applyChunk` -/

/-- The state of a `ChunkingFSM`: its storage and the term of the last chunk. -/
structure ChunkingFSM (σ : Type) where
  store : σ
  lastTerm : UInt64

variable {σ : Type}

/-- The term check of `applyChunk`: a log of a new term clears the storage with
`RestoreChunks(nil)` and becomes the last term. -/
def checkTerm (s : ChunkStorage σ) (c : ChunkingFSM σ) (term : UInt64) : Go (ChunkingFSM σ) :=
  if term ≠ c.lastTerm then do
    let store ← s.restoreChunks c.store []
    pure ⟨store, term⟩
  else pure c

/-- The loop of `applyChunk` over the finalized chunks: their data appended in order, where
`chunk.Data` of a nil chunk dereferences nil. -/
def concatData (chunks : List (Option ChunkInfo)) : Go Bytes :=
  chunks.foldlM (fun finalData chunk =>
    match chunk with
    | none => throw (.panic "invalid memory address or nil pointer dereference")
    | some chunk => pure (finalData ++ chunk.data)) []

/-- `applyChunk`: after the term check the chunk is stored, and once its operation is complete
the chunks are finalized and their data concatenated into the log to apply (`none`: nothing
to apply yet). -/
def applyChunk (s : ChunkStorage σ) (c : ChunkingFSM σ) (l : ChunkLog) :
    Go (Option Bytes × ChunkingFSM σ) := do
  let c ← checkTerm s c l.term
  let (done, store) ← s.storeChunk c.store l.chunk
  if !done then return (none, { c with store })
  let (chunks, store) ← s.finalizeOp store l.opNum
  let finalData ← concatData chunks
  return (some finalData, { c with store })

/-- Logs applied one after the other: what each gives to apply. -/
def runChunking (s : ChunkStorage σ) (c : ChunkingFSM σ) (ls : List ChunkLog) :
    Go (List (Option Bytes) × ChunkingFSM σ) :=
  ls.foldlM (fun acc l => do
    let (out, c) ← applyChunk s acc.2 l
    pure (acc.1 ++ [out], c)) ([], c)

end Vault.Raft
