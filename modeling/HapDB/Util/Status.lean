import Mathlib

/-!
# `Status`

The result of every fallible operation of the store (`include/rocksdb/status.h`):
a code, a sub-code and a message.  The two-part constructors
(`Status::Corruption(msg, msg2)`) join their parts as `util/status.cc` does,
with `": "` in between when the second part is not empty.

Only the codes and sub-codes that a modelled function produces or tests are
listed.
-/

namespace HapDB

/-- `Status::Code`. -/
inductive StatusCode where
  | kOk
  | kNotFound
  | kCorruption
  | kNotSupported
  | kInvalidArgument
  | kIOError
  | kMergeInProgress
  | kIncomplete
  | kShutdownInProgress
  | kAborted
  | kTryAgain
  deriving DecidableEq, Repr

/-- `Status::SubCode`. -/
inductive StatusSubCode where
  | kNone
  | kMemoryLimit
  deriving DecidableEq, Repr

structure Status where
  code : StatusCode
  subcode : StatusSubCode := .kNone
  msg : String := ""
  deriving DecidableEq, Repr

namespace Status

/-- The message of the two-part constructors: `msg`, then `": "` and `msg2`
when `msg2` is not empty. -/
def joinMessage (msg msg2 : String) : String :=
  if msg2.isEmpty then msg else msg ++ ": " ++ msg2

def OK : Status := { code := .kOk }

def NotFound (msg : String := "") : Status := { code := .kNotFound, msg := msg }

def Corruption (msg : String) (msg2 : String := "") : Status :=
  { code := .kCorruption, msg := joinMessage msg msg2 }

def NotSupported (msg : String) : Status := { code := .kNotSupported, msg := msg }

def InvalidArgument (msg : String) : Status := { code := .kInvalidArgument, msg := msg }

def IOError (msg : String) : Status := { code := .kIOError, msg := msg }

def Aborted (msg : String) : Status := { code := .kAborted, msg := msg }

def ShutdownInProgress (msg : String) : Status := { code := .kShutdownInProgress, msg := msg }

def MergeInProgress : Status := { code := .kMergeInProgress }

def Incomplete (msg : String) : Status := { code := .kIncomplete, msg := msg }

def MemoryLimit : Status := { code := .kAborted, subcode := .kMemoryLimit }

/-- `Status::ok()`. -/
def ok (s : Status) : Bool := s.code == .kOk

/-- `Status::IsNotFound()`. -/
def IsNotFound (s : Status) : Bool := s.code == .kNotFound

/-- `Status::IsMergeInProgress()`. -/
def IsMergeInProgress (s : Status) : Bool := s.code == .kMergeInProgress

@[simp] theorem ok_OK : OK.ok = true := rfl

@[simp] theorem ok_Corruption (msg msg2 : String) : (Corruption msg msg2).ok = false := rfl

@[simp] theorem ok_MemoryLimit : MemoryLimit.ok = false := rfl

theorem ok_iff (s : Status) : s.ok = true ↔ s.code = .kOk := by
  simp [ok]

end Status

end HapDB
