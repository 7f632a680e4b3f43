import Mathlib.Algebra.Ring.Nat
import Mathlib.Data.List.Basic
import Mathlib.Data.List.TakeWhile
import Mathlib.Logic.Function.Basic

/-! Statements with numbered parameters, the rows that they store, and the cursors
that read rows back. -/

namespace Lib.Sql

inductive Value where
  | null
  | integer (i : ℤ)
  | text (s : List UInt8)
  deriving DecidableEq

/-- An integer column. Text that stands there would be read as a number. -/
def Value.int64 : Value → ℤ
  | .integer x => x
  | _ => 0

/-- What a reader of a C string sees of some bytes. -/
def cString (s : List UInt8) : List UInt8 := s.takeWhile (· ≠ 0)

theorem zero_notMem_cString (s : List UInt8) : 0 ∉ cString s := fun h => by
  simpa using List.mem_takeWhile_imp h

theorem cString_eq_self_iff {s : List UInt8} : cString s = s ↔ 0 ∉ s := by
  constructor
  · intro h
    rw [← h]
    exact zero_notMem_cString s
  · intro h
    refine List.takeWhile_eq_self_iff.mpr fun b hb => ?_
    have hne : b ≠ 0 := fun hzero => h (hzero ▸ hb)
    exact decide_eq_true hne

theorem cString_cString (s : List UInt8) : cString (cString s) = cString s :=
  cString_eq_self_iff.mpr (zero_notMem_cString s)

section Casts

def toInt64 (n : ℕ) : ℤ := (BitVec.ofNat 64 n).toInt

def toUInt64 (x : ℤ) : ℕ := (BitVec.ofInt 64 x).toNat

theorem toInt64_of_lt {n : ℕ} (h : n < 2 ^ 63) : toInt64 n = n := by
  rw [toInt64, BitVec.toInt_eq_toNat_bmod, BitVec.toNat_ofNat, Nat.mod_eq_of_lt (by omega)]
  exact Int.bmod_eq_of_le (by omega) (by omega)

theorem toUInt64_toInt64 {n : ℕ} (h : n < 2 ^ 64) : toUInt64 (toInt64 n) = n := by
  rw [toUInt64, toInt64, BitVec.ofInt_toInt, BitVec.toNat_ofNat, Nat.mod_eq_of_lt h]

def toInt32 (x : ℤ) : ℤ := (BitVec.ofInt 32 x).toInt

theorem toUInt64_lt (x : ℤ) : toUInt64 x < 2 ^ 64 := BitVec.isLt _

/-- The number of a constructor of an enumeration of at most 256. -/
def code {α : Type*} [DecidableEq α] (values : List α) (a : α) : ℤ := values.idxOf a

/-- `static_cast` to an enumeration over one byte. A number that names no constructor gives `d`. -/
def ofCode {α : Type*} (values : List α) (d : α) (i : ℤ) : α :=
  values.getD (BitVec.ofInt 8 i).toNat d

/-- A code survives the 32 bits of a column and comes back as its constructor. -/
theorem ofCode_code {α : Type*} [DecidableEq α] {values : List α} {a : α} (d : α)
    (ha : a ∈ values) (hlen : values.length ≤ 2 ^ 8) :
    ofCode values d (toInt32 (code values a)) = a := by
  have hlt : values.idxOf a < values.length := List.idxOf_lt_length_of_mem ha
  have hint : toInt32 (code values a) = values.idxOf a := by
    rw [toInt32, code, BitVec.toInt_ofInt]
    exact Int.bmod_eq_of_le (by omega) (by omega)
  have hnat : (BitVec.ofInt 8 (values.idxOf a : ℤ)).toNat = values.idxOf a := by
    rw [BitVec.ofInt_natCast, BitVec.toNat_ofNat, Nat.mod_eq_of_lt (by omega)]
  rw [ofCode, hint, hnat, List.getD_eq_getElem?_getD, List.getElem?_idxOf ha, Option.getD_some]

end Casts

/-- The parameters of a statement, from 1 on. One that is not bound is null. -/
def Params := ℕ → Value

namespace Params

def unbound : Params := fun _ => .null

def bindInt (p : Params) (i : ℕ) (x : ℤ) : Params := Function.update p i (.integer x)

/-- Bind a text of no given length: it ends at the first NUL. -/
def bindText (p : Params) (i : ℕ) (s : List UInt8) : Params :=
  Function.update p i (.text (cString s))

end Params

abbrev Row (κ : Type*) := κ → Value

def Columns := ℕ → Value

namespace Columns

def int64 (c : Columns) (i : ℕ) : ℤ := (c i).int64

/-- The low 32 bits of an integer column. -/
def int (c : Columns) (i : ℕ) : ℤ := toInt32 (c.int64 i)

/-- A text column as a C string. A null is read as the empty text. -/
def text (c : Columns) (i : ℕ) : List UInt8 :=
  match c i with
  | .text s => cString s
  | _ => []

theorem zero_notMem_text (c : Columns) (i : ℕ) : 0 ∉ c.text i := by
  rw [text]
  cases c i with
  | null => exact List.not_mem_nil
  | integer x => exact List.not_mem_nil
  | text s => exact zero_notMem_cString s

end Columns

section Statements

variable {κ : Type*} [DecidableEq κ]

/-- `INSERT INTO t (columns) VALUES (?,..,?)`. -/
def insertRow (columns : List κ) (p : Params) : Row κ := fun c =>
  match columns.idxOf? c with
  | some i => p (i + 1)
  | none => .null

def select (columns : List κ) (row : Row κ) : Columns := fun i =>
  match columns[i]? with
  | some c => row c
  | none => .null

end Statements

section Cursors

inductive Ending where
  | done
  | failed (code : ℤ)
  deriving DecidableEq

inductive Step (ρ : Type*) where
  | row (r : ρ)
  | ended (how : Ending)

/-- The run of a query that selects the rows `stored`. It delivers them in order, and all
of them before it is done. -/
structure Cursor (ρ : Type*) where
  stored : List ρ
  delivered : List ρ
  ending : Ending
  inOrder : delivered <+: stored
  whole : ending = .done → delivered = stored

namespace Cursor

variable {ρ α : Type*}

def steps (c : Cursor ρ) : List (Step ρ) := c.delivered.map Step.row ++ [Step.ended c.ending]

def complete (rows : List ρ) : Cursor ρ := ⟨rows, rows, .done, List.prefix_rfl, fun _ => rfl⟩

def cut (rows : List ρ) (n : ℕ) (code : ℤ) : Cursor ρ :=
  ⟨rows, rows.take n, .failed code, List.take_prefix n rows, fun h => nomatch h⟩

/-- `while (sqlite3_step(stmt) == SQLITE_ROW)`, with what is made of each row. -/
def fetch (record : ρ → α) : List (Step ρ) → List α
  | .row r :: steps => record r :: fetch record steps
  | _ => []

theorem fetch_steps (record : ρ → α) (c : Cursor ρ) :
    fetch record c.steps = c.delivered.map record := by
  rw [steps]
  induction c.delivered with
  | nil => rfl
  | cons r rows ih => exact congrArg (List.cons (record r)) ih

end Cursor

end Cursors

end Lib.Sql
