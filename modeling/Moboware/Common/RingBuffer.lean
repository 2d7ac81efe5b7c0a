import Moboware.Library.FlatMemory
import Moboware.Library.Machine

/-! # The ring buffer

`RingBuffer` with its two pointers as addresses of the memory that holds the array.
Addresses and sizes are 64-bit words; a pointer steps by whole elements.
-/
namespace Moboware
open Library

/-- An array of `BufferType`, at its place in memory. -/
structure Storage where
  sizeofBufferType : ℕ
  bufferSize : ℕ
  data : UInt64
  sizeof_pos : 0 < sizeofBufferType
  fits : data.toNat + bufferSize * sizeofBufferType < UInt64.size
  allocated : 0 < bufferSize → data ≠ 0

namespace Storage

/-- `p + n` of a pointer to elements. -/
def advance (S : Storage) (p n : UInt64) : UInt64 := p + n * UInt64.ofNat S.sizeofBufferType

/-- `std::size_t(p - q)`. -/
def distance (S : Storage) (p q : UInt64) : UInt64 :=
  UInt64.ofInt (((p.toNat : Int) - q.toNat) / S.sizeofBufferType)

/-- `m_Buffer.data() + m_BufferSize`. -/
def dataEnd (S : Storage) : UInt64 := S.advance S.data (UInt64.ofNat S.bufferSize)

end Storage

/-- The null pointer is the address 0. -/
structure RingBuffer (S : Storage) (β : Type*) where
  mBuffer : Memory β
  mWriteBuffer : UInt64 := S.data
  mReadBuffer : UInt64 := S.data

namespace RingBuffer
variable {S : Storage} {β : Type*}

def getWriteBufferSize (b : RingBuffer S β) : UInt64 := S.distance b.mWriteBuffer S.data

def getFreeWriteBufferSize (b : RingBuffer S β) : UInt64 :=
  UInt64.ofNat S.bufferSize - b.getWriteBufferSize

def getReadBufferSize (b : RingBuffer S β) : UInt64 := S.distance b.mWriteBuffer b.mReadBuffer

def commit (b : RingBuffer S β) (size : UInt64) : RingBuffer S β :=
  { b with mWriteBuffer := S.advance b.mWriteBuffer size }

/-- The used part, moved to the start of the array. -/
def moveToStart (b : RingBuffer S β) (usedSize : UInt64) : RingBuffer S β :=
  { mBuffer := b.mBuffer.move S.data.toNat b.mReadBuffer.toNat
      (usedSize * UInt64.ofNat S.sizeofBufferType).toNat
    mReadBuffer := S.data
    mWriteBuffer := S.advance S.data usedSize }

def getWriteBuffer (b : RingBuffer S β) (size : UInt64) : RingBuffer S β × UInt64 :=
  if S.advance b.mWriteBuffer size ≤ S.dataEnd then (b,b.mWriteBuffer)
  else
    let usedSize := S.distance b.mWriteBuffer b.mReadBuffer
    let lowFreeSize := S.distance b.mReadBuffer S.data
    let highFreeSize := S.distance S.dataEnd b.mWriteBuffer
    if lowFreeSize + highFreeSize ≥ size then
      -- `memcpy` returns its destination, so the test of the source around it holds.
      (b.moveToStart usedSize,S.advance S.data usedSize)
    else (b,0)

def store (b : RingBuffer S β) (ptr : UInt64) (source : ℕ → β) (bytes : ℕ) : RingBuffer S β :=
  { b with mBuffer := b.mBuffer.store ptr.toNat source bytes }

/-- `memcpy` counts bytes. -/
def writeBuffer (b : RingBuffer S β) (data : ℕ → β) (dataSize : UInt64) : RingBuffer S β × UInt64 :=
  let (b,ptr) := b.getWriteBuffer dataSize
  if ptr ≠ 0 then ((b.store ptr data dataSize.toNat).commit dataSize,dataSize)
  else (b,0)

/-- `written` is what the requested region holds when `writeFn` returns. -/
def writeBufferFn (b : RingBuffer S β) (written : ℕ → β) (bytesToCommit requestedSize : UInt64) :
    RingBuffer S β × Bool :=
  let (b,ptr) := b.getWriteBuffer requestedSize
  if ptr ≠ 0 then
    let b := b.store ptr written (requestedSize.toNat * S.sizeofBufferType)
    if bytesToCommit > 0 ∧ bytesToCommit ≤ requestedSize then (b.commit bytesToCommit,true)
    else (b,false)
  else (b,false)

def getReadBuffer (b : RingBuffer S β) (size : UInt64) : UInt64 :=
  if size ≤ S.distance b.mWriteBuffer b.mReadBuffer then b.mReadBuffer else 0

def reset (b : RingBuffer S β) : RingBuffer S β :=
  { b with mWriteBuffer := S.data, mReadBuffer := S.data }

/-- The `runtime_error` of the bounds test is built and not thrown, so the test does nothing. -/
def flush (b : RingBuffer S β) (size : UInt64) : RingBuffer S β :=
  let b := { b with mReadBuffer := S.advance b.mReadBuffer size }
  if b.mWriteBuffer = b.mReadBuffer then b.reset else b

/-- With the bytes that `readFn` is offered, when it is called. -/
def readBuffer (b : RingBuffer S β) (bytesToFlush : UInt64) :
    RingBuffer S β × Option (List β) × Bool :=
  let readBytesAvailable := b.getReadBufferSize
  let readPtr := b.getReadBuffer readBytesAvailable
  if readPtr = 0 then (b,none,false)
  else
    let offered := b.mBuffer.load readPtr.toNat (readBytesAvailable.toNat * S.sizeofBufferType)
    if bytesToFlush > 0 then (b.flush bytesToFlush,some offered,true) else (b,some offered,false)

/-- The calls, with what their callbacks write and return. -/
inductive Call (β : Type*)
  | writeBuffer (data : ℕ → β) (dataSize : UInt64)
  | writeBufferFn (written : ℕ → β) (bytesToCommit requestedSize : UInt64)
  | readBuffer (bytesToFlush : UInt64)

inductive Outcome (β : Type*)
  | wrote (size : UInt64)
  | committed (success : Bool)
  | read (offered : Option (List β)) (success : Bool)
  deriving DecidableEq

def step : Machine (RingBuffer S β) (Call β) (Outcome β)
  | b, .writeBuffer data dataSize =>
    ((b.writeBuffer data dataSize).1,[.wrote (b.writeBuffer data dataSize).2])
  | b, .writeBufferFn written bytesToCommit requestedSize =>
    ((b.writeBufferFn written bytesToCommit requestedSize).1,
      [.committed (b.writeBufferFn written bytesToCommit requestedSize).2])
  | b, .readBuffer bytesToFlush =>
    ((b.readBuffer bytesToFlush).1,
      [.read (b.readBuffer bytesToFlush).2.1 (b.readBuffer bytesToFlush).2.2])

end RingBuffer
end Moboware
