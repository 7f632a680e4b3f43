import Oems.Types
import Oems.Lib.Decimal
import Oems.Lib.Delimited
import Oems.Lib.Substring

namespace Oems

open Lib

def soh : UInt8 := 1

def equals : UInt8 := 61

namespace FixTag

def beginString : ℤ := 8
def bodyLength : ℤ := 9
def checkSum : ℤ := 10
def msgType : ℤ := 35
def senderCompId : ℤ := 49
def targetCompId : ℤ := 56
def msgSeqNum : ℤ := 34
def sendingTime : ℤ := 52
def clOrdID : ℤ := 11
def orderID : ℤ := 37
def execID : ℤ := 17
def symbol : ℤ := 55
def side : ℤ := 54
def orderQty : ℤ := 38
def ordType : ℤ := 40
def price : ℤ := 44
def ordStatus : ℤ := 39
def execType : ℤ := 150
def leavesQty : ℤ := 151
def cumQty : ℤ := 14
def testReqID : ℤ := 112
def heartBtInt : ℤ := 108
def encryptMethod : ℤ := 98
def text : ℤ := 58

end FixTag

namespace FixMsgType

def heartbeat : Str := str "0"
def testRequest : Str := str "1"
def logout : Str := str "5"
def executionReport : Str := str "8"
def logon : Str := str "A"
def newOrderSingle : Str := str "D"
def orderCancelRequest : Str := str "F"

end FixMsgType

/-- `std::from_chars` into a `std::int32_t`. -/
def fromCharsInt32 (bs : Str) : Option ℤ := Decimal.fromChars (-2 ^ 31) (2 ^ 31 - 1) bs

def fromCharsInt64 (bs : Str) : Option ℤ := Decimal.fromChars (-2 ^ 63) (2 ^ 63 - 1) bs

/-- A FIX message: its fields in order. A tag is an `std::int32_t`. -/
structure FixMessage where
  fields : List (ℤ × Str)
  deriving DecidableEq, Repr

def orParseError {α : Type} : Option α → Result α
  | some a => .ok a
  | none => .error .fixParseError

def parseRequire (c : Prop) [Decidable c] : Result Unit :=
  if c then .ok () else .error .fixParseError

def findTagStart (raw needle : Str) : Option ℕ :=
  match Substring.find needle raw with
  | none => none
  | some pos => if pos = 0 ∨ raw[pos - 1]? = some soh then some pos else none

/-- The sum is an `unsigned`, 32 bits wide. -/
def computeCheckSum (buf : Str) : ℕ :=
  buf.foldl (fun sum c => (sum + c.toNat) % 2 ^ 32) 0 % 256

/-- The loop of `Parse` from one position on: the tag is what stands before the
next `=`, the value what stands between it and the SOH after it. -/
def parseFields (raw : Str) : Result (List (ℤ × Str)) :=
  if raw = [] then .ok []
  else
    match _heq : Delimited.cut equals raw with
    | none => .error .fixParseError
    | some (tagView, afterEq) =>
      match _hsoh : Delimited.cut soh afterEq with
      | none => .error .fixParseError
      | some (value, rest) =>
        match fromCharsInt32 tagView with
        | none => .error .fixParseError
        | some tagNum =>
          if tagNum ≤ 0 then .error .fixParseError
          else (parseFields rest).map fun fields => (tagNum, value) :: fields
termination_by raw.length
decreasing_by
  obtain ⟨hraw, -⟩ := Delimited.eq_of_cut _heq
  obtain ⟨hafter, -⟩ := Delimited.eq_of_cut _hsoh
  simp only [hraw, hafter, List.length_append, List.length_cons]
  omega

namespace FixMessage

def get (m : FixMessage) (tag : ℤ) : Option Str :=
  (m.fields.find? fun f => f.1 = tag).map (·.2)

theorem get_cons (f : ℤ × Str) (fields : List (ℤ × Str)) (tag : ℤ) :
    get ⟨f :: fields⟩ tag = if f.1 = tag then some f.2 else get ⟨fields⟩ tag := by
  simp only [get, List.find?_cons]
  by_cases h : f.1 = tag <;> simp [h]

def empty : FixMessage := ⟨[]⟩

def msgType (m : FixMessage) : Str := (m.get FixTag.msgType).getD []

/-- 0 when the tag is absent, or its value no number or out of range. -/
def getInt (m : FixMessage) (tag : ℤ) : ℤ := ((m.get tag).bind fromCharsInt64).getD 0

/-- The loop of `Set`: the first field of the tag takes the value, a new field
when there is none. -/
def setField (tag : ℤ) (value : Str) : List (ℤ × Str) → List (ℤ × Str)
  | [] => [(tag, value)]
  | f :: fields => if f.1 = tag then (f.1, value) :: fields else f :: setField tag value fields

def set (m : FixMessage) (tag : ℤ) (value : Str) : FixMessage := ⟨setField tag value m.fields⟩

def setInt (m : FixMessage) (tag z : ℤ) : FixMessage := m.set tag (Decimal.ofInt z)

theorem get_set (m : FixMessage) (tag : ℤ) (value : Str) (t : ℤ) :
    (m.set tag value).get t = if t = tag then some value else m.get t := by
  obtain ⟨fields⟩ := m
  induction fields with
  | nil =>
    rw [set, setField, get_cons]
    by_cases ht : t = tag
    · rw [if_pos ht.symm, if_pos ht]
    · rw [if_neg (Ne.symm ht), if_neg ht]
  | cons f fields ih =>
    rw [set, setField]
    by_cases hf : f.1 = tag
    · rw [if_pos hf, get_cons, get_cons, hf]
      by_cases ht : t = tag
      · rw [if_pos ht.symm, if_pos ht]
      · rw [if_neg (Ne.symm ht), if_neg ht, if_neg (Ne.symm ht)]
    · rw [if_neg hf, get_cons, get_cons]
      change (if f.1 = t then some f.2 else ((FixMessage.mk fields).set tag value).get t) = _
      rw [ih]
      by_cases ht : t = tag
      · rw [if_neg (ht ▸ hf), if_pos ht, if_pos ht]
      · rw [if_neg ht, if_neg ht]

@[simp] theorem get_set_self (m : FixMessage) (tag : ℤ) (value : Str) :
    (m.set tag value).get tag = some value := by
  rw [get_set, if_pos rfl]

theorem get_set_of_ne (m : FixMessage) {tag t : ℤ} (h : t ≠ tag) (value : Str) :
    (m.set tag value).get t = m.get t := by
  rw [get_set, if_neg h]

def parse (raw : Str) : Result FixMessage := (parseFields raw).map FixMessage.mk

def parseStrict (raw : Str) : Result FixMessage := do
  let parsed ← parse raw
  let bodyLength ← orParseError (parsed.get FixTag.bodyLength)
  let bodyLengthPos ← orParseError (findTagStart raw (str "9="))
  let bodyEnd ← orParseError (Substring.findFrom [soh] raw bodyLengthPos)
  let bodyStart := bodyEnd + 1
  let last ← orParseError parsed.fields.getLast?
  parseRequire (last.1 = FixTag.checkSum)
  let checksumPos ← orParseError (Substring.rfind (soh :: str "10=") raw)
  parseRequire (bodyStart ≤ checksumPos)
  let claimedBodyLength ← orParseError (fromCharsInt32 bodyLength)
  parseRequire (0 ≤ claimedBodyLength ∧
    claimedBodyLength.toNat = checksumPos - bodyStart + 1)
  -- the SOH before the trailer counts
  let computed := computeCheckSum (raw.take (checksumPos + 1))
  let claimed ← orParseError (fromCharsInt32 last.2)
  parseRequire (claimed = computed)
  return parsed

def isFramed (tag : ℤ) : Bool :=
  tag = FixTag.beginString || tag = FixTag.bodyLength || tag = FixTag.msgType ||
    tag = FixTag.checkSum

def wireField (f : ℤ × Str) : Str := Decimal.ofInt f.1 ++ equals :: (f.2 ++ [soh])

def begin (m : FixMessage) : Str := (m.get FixTag.beginString).getD (str "FIX.4.4")

def mtype (m : FixMessage) : Str := (m.get FixTag.msgType).getD (str "0")

def body (m : FixMessage) : Str :=
  str "35=" ++ m.mtype ++ [soh] ++ (m.fields.filter fun f => ¬ isFramed f.1).flatMap wireField

def withoutChecksum (m : FixMessage) : Str :=
  str "8=" ++ m.begin ++ [soh] ++ (str "9=" ++ Decimal.ofNat m.body.length ++ [soh]) ++ m.body

/-- The format `03d`. -/
def threeDigits (n : ℕ) : Str :=
  List.replicate (3 - (Decimal.ofNat n).length) 48 ++ Decimal.ofNat n

def serialize (m : FixMessage) : Str :=
  m.withoutChecksum ++ (str "10=" ++ threeDigits (computeCheckSum m.withoutChecksum) ++ [soh])

end FixMessage

end Oems
