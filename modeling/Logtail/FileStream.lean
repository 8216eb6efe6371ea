import Logtail.Framing
import Mathlib.Logic.Function.Basic

/-!
# Files by inode and input streams over them

The part of the file system that a tailing thread can see, and `std::ifstream`
as the program uses it. A stream keeps the inode it opened, whatever happens to
the name afterwards. Read-ahead is not modelled: on a file that only grows it
returns the same bytes, and each poll opens a new stream.
-/

namespace FileStream

open Framing

abbrev Bytes := List UInt8

def newline : UInt8 := 10

def nul : UInt8 := 0

/-- `std::string(const char *)` reads memory up to the first NUL. -/
def cString (memory : Bytes) : Bytes := memory.takeWhile fun b => b != nul

/-- Text without a NUL stays in front of what the memory holds behind it. -/
theorem cString_append {xs : Bytes} (h : nul ∉ xs) (ys : Bytes) :
    cString (xs ++ ys) = xs ++ cString ys := by
  rw [cString, List.takeWhile_append_of_pos]
  · rfl
  · intro b hb
    simp only [bne_iff_ne, ne_eq]
    rintro rfl
    exact h hb

/-- A NUL in the text cuts it off. -/
theorem cString_length_lt {xs : Bytes} (h : nul ∈ xs) (ys : Bytes) :
    (cString (xs ++ ys)).length < xs.length := by
  rcases cut_cases nul xs with hno | ⟨w, rest, rfl, hw⟩
  · exact absurd h hno
  · rw [List.append_assoc, cString_append hw]
    simp [cString]

/-- The two fields of `struct stat` that the program compares. -/
structure Stat where
  stIno : Nat
  stSize : Nat
  deriving DecidableEq

structure Fs where
  file : Nat → Bytes
  path : Option Nat
  backupPath : Option Nat

namespace Fs

def stat (fs : Fs) : Option Stat :=
  fs.path.map fun ino => ⟨ino, (fs.file ino).length⟩

def write (fs : Fs) (ino : Nat) (bytes : Bytes) : Fs :=
  { fs with file := Function.update fs.file ino bytes }

def append (fs : Fs) (ino : Nat) (bytes : Bytes) : Fs :=
  fs.write ino (fs.file ino ++ bytes)

/-- `mv path backup_path`. -/
def rename (fs : Fs) : Fs := { fs with path := none, backupPath := fs.path }

/-- A new empty file under the name `path`. -/
def create (fs : Fs) (ino : Nat) : Fs := { fs.write ino [] with path := some ino }

/-- `cp path backup_path`, then truncation in place; `fresh` is the copy's inode
and `bytes` what has been written to the truncated file since. -/
def copyTruncate (fs : Fs) (fresh ino : Nat) (bytes : Bytes) : Fs :=
  { (fs.write fresh (fs.file ino)).write ino bytes with backupPath := some fresh }

@[simp] theorem write_file_self (fs : Fs) (ino : Nat) (bytes : Bytes) :
    (fs.write ino bytes).file ino = bytes := by
  simp [write]

theorem write_file_of_ne (fs : Fs) {ino i : Nat} (h : i ≠ ino) (bytes : Bytes) :
    (fs.write ino bytes).file i = fs.file i := by
  simp [write, h]

@[simp] theorem write_path (fs : Fs) (ino : Nat) (bytes : Bytes) :
    (fs.write ino bytes).path = fs.path := rfl

@[simp] theorem append_file_self (fs : Fs) (ino : Nat) (bytes : Bytes) :
    (fs.append ino bytes).file ino = fs.file ino ++ bytes := by
  simp [append]

theorem append_file_of_ne (fs : Fs) {ino i : Nat} (h : i ≠ ino) (bytes : Bytes) :
    (fs.append ino bytes).file i = fs.file i := by
  simp [append, write_file_of_ne fs h]

@[simp] theorem append_path (fs : Fs) (ino : Nat) (bytes : Bytes) :
    (fs.append ino bytes).path = fs.path := rfl

@[simp] theorem append_backupPath (fs : Fs) (ino : Nat) (bytes : Bytes) :
    (fs.append ino bytes).backupPath = fs.backupPath := rfl

end Fs

/-- What `tellg` returns on a stream whose `eofbit` is set: the end offset
(C++98) or -1 (C++11). -/
inductive Libstdcxx where
  | cxx98
  | cxx11
  deriving DecidableEq

structure Ifstream where
  ino : Nat
  off : Nat
  eofbit : Bool
  failbit : Bool
  deriving DecidableEq

namespace Ifstream

def opened (ino : Nat) : Ifstream := ⟨ino, 0, false, false⟩

def good (f : Ifstream) : Bool := !f.eofbit && !f.failbit

/-- `seekg(pos, beg)`; a negative offset fails. -/
def seekg (lib : Libstdcxx) (f : Ifstream) (pos : Int) : Ifstream :=
  let f := { f with eofbit := f.eofbit && lib == .cxx98 }
  if f.failbit then f
  else if pos < 0 then { f with failbit := true }
  else { f with off := pos.toNat }

def tellg (lib : Libstdcxx) (f : Ifstream) : Int × Ifstream :=
  if f.failbit then (-1, f)
  else if f.eofbit && lib == .cxx11 then (-1, { f with failbit := true })
  else (f.off, f)

/-- `std::getline` on the bytes the file has now: an unterminated last line is
returned with `eofbit`, the end of the file also sets `failbit`. -/
def getline (content : Bytes) (f : Ifstream) : Option Bytes × Ifstream :=
  if !f.good then (none, { f with failbit := true })
  else match cut newline (content.drop f.off) with
    | some (temp, _) => (some temp, { f with off := f.off + temp.length + 1 })
    | none =>
      let temp := content.drop f.off
      if temp = [] then (none, { f with eofbit := true, failbit := true })
      else (some temp, { f with off := content.length, eofbit := true })

theorem seekg_opened (lib : Libstdcxx) (ino pos : Nat) :
    (opened ino).seekg lib pos = ⟨ino, pos, false, false⟩ := by
  simp [seekg, opened]

/-- A good stream tells its offset and is left as it is. -/
theorem tellg_good (lib : Libstdcxx) {f : Ifstream} (h : f.good) :
    f.tellg lib = ((f.off : Int), f) := by
  have hbits : f.eofbit = false ∧ f.failbit = false := by simpa [good] using h
  simp [tellg, hbits]

/-- A line with its newline is read without its newline. -/
theorem getline_record {content : Bytes} {f : Ifstream} (h : f.good) {temp rest : Bytes}
    (hcut : content.drop f.off = temp ++ newline :: rest) (hline : newline ∉ temp) :
    f.getline content = (some temp, { f with off := f.off + temp.length + 1 }) := by
  have hc := (cut_eq_some_iff newline (content.drop f.off) temp rest).mpr ⟨hcut, hline⟩
  simp [getline, h, hc]

/-- At the end of the file nothing is read and both bits are set. -/
theorem getline_end {content : Bytes} {f : Ifstream} (h : f.good) (hend : content.drop f.off = []) :
    f.getline content = (none, { f with eofbit := true, failbit := true }) := by
  simp [getline, h, hend, cut]

/-- A last line without a newline is read, too, and sets `eofbit` only. -/
theorem getline_unterminated {content : Bytes} {f : Ifstream} (h : f.good)
    (hne : content.drop f.off ≠ []) (hline : newline ∉ content.drop f.off) :
    f.getline content =
      (some (content.drop f.off), { f with off := content.length, eofbit := true }) := by
  have hc := (cut_eq_none_iff newline (content.drop f.off)).mpr hline
  simp only [getline, h, hc, if_neg hne]
  simp

end Ifstream

end FileStream
