import Logtail.FileStream
import Logtail.Decimal
import Mathlib.Data.List.TakeWhile

/-!
# The checkpoint record

One line `time position path`, written unquoted by `write_checkpoint` and cut
apart at spaces by `getcheckpoint`. The path is the rest of the line, so spaces
in it are harmless; a newline in it is not.
-/

namespace Checkpoint

open Framing FileStream

/-- A string literal of the source. -/
def ascii (text : String) : Bytes := text.toList.map fun c => UInt8.ofNat c.toNat

def space : UInt8 := 32

/-- `write_checkpoint`: the string built in `str_time`. -/
def checkpointLine (tTime position : Int) (path : Bytes) : Bytes :=
  Decimal.print tTime ++ space :: (Decimal.print position ++ space :: path)

/-- `t.substr(0, t.find_first_of(d))`; npos keeps the whole string. -/
def upTo (d : UInt8) (t : Bytes) : Bytes :=
  match cut d t with
  | some (w, _) => w
  | none => t

/-- `t.substr(t.find_first_of(d) + 1)`; npos + 1 is 0. -/
def beyond (d : UInt8) (t : Bytes) : Bytes :=
  match cut d t with
  | some (_, rest) => rest
  | none => t

/-- The three keys that `getcheckpoint` puts into its map. -/
structure CheckpointMap where
  checkTime : Bytes
  checkPosition : Bytes
  checkPath : Bytes
  deriving DecidableEq

/-- `conf::getcheckpoint`; without a readable file it returns false and leaves
the map empty. -/
def getcheckpoint (file : Option Bytes) : Option CheckpointMap :=
  file.map fun content =>
    let tContent := upTo newline content
    let rest := beyond space tContent
    ⟨upTo space tContent, upTo space rest, beyond space rest⟩

def isSpace (b : UInt8) : Bool := b == space || (9 ≤ b.toNat && b.toNat ≤ 13)

def clamp (z : Int) : Int := max (-2 ^ 63) (min z (2 ^ 63 - 1))

/-- `StringToInt`: extraction of a `long long` as in C++11. A failed conversion
stores 0, an out-of-range value the nearest limit; on an empty or blank string
nothing is stored. -/
def stringToInt (temp : Bytes) : Option Int :=
  match temp.dropWhile isSpace with
  | [] => none
  | b :: rest =>
    let body := if b = Decimal.minus ∨ b = 43 then rest else b :: rest
    let value : Int := Decimal.readNat (body.takeWhile Decimal.isDigit)
    some (clamp (if b = Decimal.minus then -value else value))

theorem upTo_append {d : UInt8} {w : Bytes} (h : d ∉ w) (rest : Bytes) :
    upTo d (w ++ d :: rest) = w := by
  simp [upTo, (cut_eq_some_iff d (w ++ d :: rest) w rest).mpr ⟨rfl, h⟩]

theorem beyond_append {d : UInt8} {w : Bytes} (h : d ∉ w) (rest : Bytes) :
    beyond d (w ++ d :: rest) = rest := by
  simp [beyond, (cut_eq_some_iff d (w ++ d :: rest) w rest).mpr ⟨rfl, h⟩]

theorem upTo_of_not_mem {d : UInt8} {t : Bytes} (h : d ∉ t) : upTo d t = t := by
  simp [upTo, (cut_eq_none_iff d t).mpr h]

theorem space_not_mem_print (z : Int) : space ∉ Decimal.print z :=
  Decimal.not_mem_print (by decide) (by decide) z

theorem upTo_append_of_not_mem {d : UInt8} {w : Bytes} (h : d ∉ w) (rest : Bytes) :
    upTo d (w ++ rest) = w ++ upTo d rest := by
  rcases cut_cases d rest with hrest | ⟨v, rest', rfl, hv⟩
  · rw [upTo_of_not_mem hrest, upTo_of_not_mem (by simp [h, hrest])]
  · have hwv : d ∉ w ++ v := by simp [h, hv]
    rw [upTo_append hv, ← List.append_assoc, upTo_append hwv]

/-- A completed record is read back field by field; of a path with a newline only
the first line comes back. -/
theorem getcheckpoint_checkpointLine (tTime position : Int) (path : Bytes) :
    getcheckpoint (some (checkpointLine tTime position path)) =
      some ⟨Decimal.print tTime, Decimal.print position, upTo newline path⟩ := by
  have hprint : ∀ z, newline ∉ Decimal.print z :=
    Decimal.not_mem_print (by decide) (by decide)
  have hhead : ∀ z, newline ∉ Decimal.print z ++ [space] := by
    intro z
    have hspace : newline ≠ space := by decide
    simp [hprint z, hspace]
  have hline : upTo newline (checkpointLine tTime position path) =
      checkpointLine tTime position (upTo newline path) := by
    have hcut := upTo_append_of_not_mem (hhead tTime)
      ((Decimal.print position ++ [space]) ++ path)
    rw [upTo_append_of_not_mem (hhead position)] at hcut
    simpa only [checkpointLine, List.append_assoc, List.singleton_append] using hcut
  have hrest : beyond space (checkpointLine tTime position (upTo newline path)) =
      Decimal.print position ++ space :: upTo newline path :=
    beyond_append (space_not_mem_print tTime) _
  simp only [getcheckpoint, Option.map_some, hline, hrest]
  rw [checkpointLine, upTo_append (space_not_mem_print tTime),
    upTo_append (space_not_mem_print position), beyond_append (space_not_mem_print position)]

/-- The record that a crash leaves holds the position `p`. -/
def Stored (file : Option Bytes) (p : Int) : Prop :=
  ∃ map, getcheckpoint file = some map ∧ map.checkPosition = Decimal.print p

theorem stored_checkpointLine (tTime position : Int) (path : Bytes) :
    Stored (some (checkpointLine tTime position path)) position :=
  ⟨_, getcheckpoint_checkpointLine tTime position path, rfl⟩

theorem clamp_of_bounds {z : Int} (lo : -2 ^ 63 ≤ z) (hi : z < 2 ^ 63) : clamp z = z := by
  unfold clamp
  omega

/-- Printing and extraction are inverse, up to the range of `long long`. -/
theorem stringToInt_print (z : Int) : stringToInt (Decimal.print z) = some (clamp z) := by
  have hdigits : ∀ n, (Decimal.printNat n).takeWhile Decimal.isDigit = Decimal.printNat n := by
    intro n
    rw [List.takeWhile_eq_self_iff]
    intro b hb
    exact Decimal.isDigit_of_mem_printNat hb
  by_cases hz : z < 0
  · have hprint : Decimal.print z = Decimal.minus :: Decimal.printNat z.natAbs := by
      simp [Decimal.print, hz]
    have hneg : -(z.natAbs : Int) = z := by omega
    have hminus : isSpace Decimal.minus = false := by decide
    simp only [stringToInt, hprint, List.dropWhile_cons, hminus, Bool.false_eq_true, if_false,
      true_or, if_true, hdigits, Decimal.readNat_printNat, hneg]
  · have hprint : Decimal.print z = Decimal.printNat z.natAbs := by simp [Decimal.print, hz]
    have habs : (z.natAbs : Int) = z := by omega
    obtain ⟨b, rest, hb⟩ : ∃ b rest, Decimal.printNat z.natAbs = b :: rest :=
      List.exists_cons_of_ne_nil (Decimal.printNat_ne_nil _)
    have hdig : Decimal.isDigit b := Decimal.isDigit_of_mem_printNat (hb ▸ List.mem_cons_self)
    have hspace : isSpace b = false := by
      simp only [Decimal.isDigit, Bool.and_eq_true, decide_eq_true_eq] at hdig
      simp only [isSpace, Bool.or_eq_false_iff, Bool.and_eq_false_iff, decide_eq_false_iff_not,
        beq_eq_false_iff_ne]
      refine ⟨?_, Or.inr (by omega)⟩
      rintro rfl
      exact absurd hdig (by decide)
    have hsign : ¬ (b = Decimal.minus ∨ b = 43) := by
      rintro (rfl | rfl) <;> exact absurd hdig (by decide)
    have hminus : b ≠ Decimal.minus := fun he => hsign (Or.inl he)
    have hall := hdigits z.natAbs
    have hread := Decimal.readNat_printNat z.natAbs
    rw [hb] at hall hread
    simp only [stringToInt, hprint, hb, List.dropWhile_cons, hspace, Bool.false_eq_true, if_false,
      if_neg hsign, if_neg hminus, hall, hread, habs]

/-- The position that `getcheckpoint` and `StringToInt` find in the record. -/
def ReadsBack (file : Option Bytes) (p : Int) : Prop :=
  ∃ map, getcheckpoint file = some map ∧ stringToInt map.checkPosition = some p

theorem readsBack_checkpointLine_iff (tTime position : Int) (path : Bytes) (p : Int) :
    ReadsBack (some (checkpointLine tTime position path)) p ↔ p = clamp position := by
  simp only [ReadsBack, getcheckpoint_checkpointLine, Option.some.injEq, exists_eq_left',
    stringToInt_print]
  exact eq_comm

theorem not_readsBack_truncated (p : Int) : ¬ ReadsBack (some []) p := by
  rintro ⟨map, hmap, hread⟩
  obtain rfl := Option.some.inj hmap
  cases hread

theorem clamp_le {z : Int} (h : 0 ≤ z) : clamp z ≤ z := by
  unfold clamp
  omega

end Checkpoint
