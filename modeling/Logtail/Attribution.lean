import Logtail.Separators
import Logtail.Launch

/-!
# What category and prefix tell about the source

`make_prefix_category` joins the options of a model with `_` and with the
separators of a query string, and escapes nothing; `parseModel` asks only whether
the options are there. Two sources can be confused where a separator stands in
the values themselves.
-/

namespace ModelRead

open Framing FileStream ScribeSend Checkpoint Conf Separators

/-- What `readLogFile` builds from the prefix and a line. -/
def Model.message (r : Model) (line : Bytes) : Bytes := r.logPrefix.getD [] ++ line ++ [newline]

/-- The separator is in an early field of one model and in a later field of another. -/
def Shifts (separator : String) (early : Bytes) (later : List Bytes) : Prop :=
  ascii separator <:+: early ∧ ∃ field ∈ later, ascii separator <:+: field

/-- The category of `r` can go on in `type` or `accesskey` where that of `r'` is in a later
field. -/
def CategoryShift (r r' : Model) : Prop :=
  Shifts "_" r.members.type [r'.members.accesskey, r'.members.set_] ∨
    Shifts "_" r.members.accesskey [r'.members.set_]

/-- The same for the fields of the prefix, and the line. -/
def MessageShift (r r' : Model) (line : Bytes) : Prop :=
  Shifts "&_ip=" r.members.accesskey
      [r'.members.from_, r'.members.logServerPort, r'.localAn, line] ∨
    Shifts "&_port=" r.members.from_ [r'.members.logServerPort, r'.localAn, line] ∨
    Shifts "&_an=" r.members.logServerPort [r'.localAn, line] ∨
    Shifts "&_data=" r.localAn [line]

section

variable {mode : Mode} {garbage : String → Int} {w : World} {name : Bytes} {values : StringMap}
  {r r' : Model}

theorem liveEntry_config (now : Int) (line : Bytes) :
    liveEntry (r.config garbage w now) line = ⟨r.category.getD [], r.message line⟩ := rfl

/-- The lines of the rotated file are queued without their newline. -/
theorem backupEntry_config (now : Int) (line : Bytes) :
    (backupEntry (r.config garbage w now) line).message ++ [newline] = r.message line := rfl

theorem makePrefixCategory_of_setUp (h : setUp mode garbage w (name, values) = some r) :
    ∃ q : Model, r = q.makePrefixCategory := by
  cases mode with
  | f => exact ⟨_, (Option.some.inj h).symm⟩
  | r =>
    obtain ⟨mCheckpoint, -, rfl⟩ := Option.map_eq_some_iff.mp h
    exact ⟨_, rfl⟩

theorem setUp_f (garbage : String → Int) (w : World) (name : Bytes) (values : StringMap) :
    setUp .f garbage w (name, values) =
      some (configured garbage w name values).makePrefixCategory := rfl

/-- The fields that the category is joined of. -/
theorem category_setUp (h : setUp mode garbage w (name, values) = some r) :
    r.category = some (join r.members.type
      [(ascii "_", r.members.accesskey), (ascii "_", r.members.set_)]) := by
  obtain ⟨q, rfl⟩ := makePrefixCategory_of_setUp h
  simp [Model.makePrefixCategory, join]

/-- The fields that the prefix is joined of, with the line behind them. -/
theorem message_setUp (h : setUp mode garbage w (name, values) = some r) (line : Bytes) :
    r.message line = ascii "_accesskey=" ++ (join r.members.accesskey
      [(ascii "&_ip=", r.members.from_), (ascii "&_port=", r.members.logServerPort),
        (ascii "&_an=", r.localAn), (ascii "&_data=", line)] ++ [newline]) := by
  obtain ⟨q, rfl⟩ := makePrefixCategory_of_setUp h
  simp [Model.makePrefixCategory, Model.message, join]

end

theorem separating_category : Separating 95 [ascii "_", ascii "_"] where
  marked := by
    intro S hS
    obtain rfl : S = ascii "_" := by simpa using hS
    exact ⟨[], rfl, List.not_mem_nil⟩
  apart := by decide

theorem separating_message :
    Separating 38 [ascii "&_ip=", ascii "&_port=", ascii "&_an=", ascii "&_data="] where
  marked := by
    have hform : ∀ S ∈ [ascii "&_ip=", ascii "&_port=", ascii "&_an=", ascii "&_data="],
        S = 38 :: S.tail ∧ 38 ∉ S.tail := by decide
    exact fun S hS => ⟨S.tail, hform S hS⟩
  apart := by decide

section

variable {mode mode' : Mode} {garbage garbage' : String → Int} {w w' : World}
  {name name' : Bytes} {values values' : StringMap} {r r' : Model}

theorem owner_or_shift (h : setUp mode garbage w (name, values) = some r)
    (h' : setUp mode' garbage' w' (name', values') = some r') (heq : r.category = r'.category) :
    (r.members.type = r'.members.type ∧ r.members.accesskey = r'.members.accesskey ∧
      r.members.set_ = r'.members.set_) ∨ CategoryShift r r' ∨ CategoryShift r' r := by
  rw [category_setUp h, category_setUp h', Option.some.injEq] at heq
  rcases eq_or_shifted separating_category (by rfl) heq with ⟨htype, hrest⟩ | hshift | hshift
  · left
    simpa [htype] using hrest
  · right; left
    simpa [Shifted, CategoryShift, Shifts] using hshift
  · right; right
    simpa [Shifted, CategoryShift, Shifts] using hshift

theorem origin_or_shift (h : setUp mode garbage w (name, values) = some r)
    (h' : setUp mode' garbage' w' (name', values') = some r') {line line' : Bytes}
    (heq : r.message line = r'.message line') :
    (r.members.accesskey = r'.members.accesskey ∧ r.members.from_ = r'.members.from_ ∧
      r.members.logServerPort = r'.members.logServerPort ∧ r.localAn = r'.localAn ∧
      line = line') ∨ MessageShift r r' line' ∨ MessageShift r' r line := by
  rw [message_setUp h, message_setUp h'] at heq
  have hjoin := List.append_cancel_right (List.append_cancel_left heq)
  rcases eq_or_shifted separating_message (by rfl) hjoin with ⟨hkey, hrest⟩ | hshift | hshift
  · left
    simpa [hkey] using hrest
  · right; left
    simpa [Shifted, MessageShift, Shifts] using hshift
  · right; right
    simpa [Shifted, MessageShift, Shifts] using hshift

end

theorem not_shifts (mark : UInt8) {separator : String} {early : Bytes} {later : List Bytes}
    (hmark : mark ∈ ascii separator) (h : mark ∉ early ∨ ∀ field ∈ later, mark ∉ field) :
    ¬ Shifts separator early later := by
  rintro ⟨hearly, field, hfield, hlater⟩
  rcases h with hnot | hnot
  · exact hnot (hearly.subset hmark)
  · exact hnot field hfield (hlater.subset hmark)

/-- The user is told to choose `set` without an underscore, and the three types that he is
told of have none: then the category names the key. -/
theorem owner_of_category {mode mode' : Mode} {garbage garbage' : String → Int} {w w' : World}
    {name name' : Bytes} {values values' : StringMap} {r r' : Model}
    (h : setUp mode garbage w (name, values) = some r)
    (h' : setUp mode' garbage' w' (name', values') = some r')
    (plain : ∀ q ∈ [r, r'], 95 ∉ q.members.type ∧ 95 ∉ q.members.set_)
    (heq : r.category = r'.category) :
    r.members.type = r'.members.type ∧ r.members.accesskey = r'.members.accesskey ∧
      r.members.set_ = r'.members.set_ := by
  have hplain : ∀ q ∈ [r, r'], ∀ q' ∈ [r, r'], ¬ CategoryShift q q' := by
    rintro q hq q' hq' (hshift | hshift)
    · exact not_shifts 95 (by decide) (Or.inl (plain q hq).1) hshift
    · exact not_shifts 95 (by decide) (Or.inr (by simpa using (plain q' hq').2)) hshift
  rcases owner_or_shift h h' heq with hsame | hshift | hshift
  · exact hsame
  · exact absurd hshift (hplain r (by simp) r' (by simp))
  · exact absurd hshift (hplain r' (by simp) r (by simp))

/-- Two categories that come out the same, and two prefixes. -/
def collidingText : Bytes :=
  ascii "[a]\nport=1\nhost=h\npath=p\ntype=x\naccesskey=y_k\nset=s\nfrom=f\n" ++
  ascii "[b]\nport=1\nhost=h\npath=p\ntype=x_y\naccesskey=k\nset=s\nfrom=i&_ip=j\n" ++
  ascii "[c]\nport=1\nhost=h\npath=p\ntype=x\naccesskey=k&_ip=i\nset=s\nfrom=j\n"

def collidingValues (name : String) : StringMap :=
  (parseConfig (some collidingText)).getD (ascii name) ∅

def collided (name : String) : Model :=
  (configured (fun _ => 0) (sampleWorld collidingText [] []) (ascii name)
    (collidingValues name)).makePrefixCategory

theorem setUp_collided (name : String) :
    setUp .f (fun _ => 0) (sampleWorld collidingText [] []) (ascii name, collidingValues name) =
      some (collided name) := by
  rw [setUp_f, collided]

theorem localAn_collided (name : String) : (collided name).localAn = [] := by
  rw [collided, Model.makePrefixCategory, configured, sampleWorld]

/-- The options that the category and the prefix are made of. -/
def identity (m : Members) : List Bytes := [m.type, m.accesskey, m.set_, m.from_, m.logServerPort]

theorem collided_parsed :
    ((Conf.parseModel (readConfFile (some collidingText)) ∅).1 = true ∧
      ∀ name ∈ ["a", "b", "c"], ascii name ∈ parseConfig (some collidingText) ∧
        (parseModel (fun _ => 0) (collided name).modelconfig).1 = true) ∧
      identity (collided "a").members =
        [ascii "x", ascii "y_k", ascii "s", ascii "f", ascii "null"] ∧
      identity (collided "b").members =
        [ascii "x_y", ascii "k", ascii "s", ascii "i&_ip=j", ascii "null"] ∧
      identity (collided "c").members =
        [ascii "x", ascii "k&_ip=i", ascii "s", ascii "j", ascii "null"] := by
  decide

theorem collided_mem {rs : List Model}
    (h : main .f (fun _ => 0) (sampleWorld collidingText [] []) (ascii "c") = some rs)
    (name : String) (hname : name ∈ ["a", "b", "c"]) : collided name ∈ rs := by
  have hstored := (collided_parsed.1.2 name hname).1
  exact (mem_setUpAll h).mpr ⟨ascii name, collidingValues name,
    Std.ExtTreeMap.getElem?_eq_some_getD hstored, setUp_collided name⟩

theorem fields_of_identity {m : Members} {type accesskey set_ from_ port : Bytes}
    (h : identity m = [type, accesskey, set_, from_, port]) :
    m.type = type ∧ m.accesskey = accesskey ∧ m.set_ = set_ ∧ m.from_ = from_ ∧
      m.logServerPort = port := by
  simpa [identity] using h

theorem category_collided :
    (collided "a").category = (collided "b").category ∧
      (collided "a").members.type ≠ (collided "b").members.type := by
  obtain ⟨-, hA, hB, -⟩ := collided_parsed
  obtain ⟨htypeA, hkeyA, hsetA, -, -⟩ := fields_of_identity hA
  obtain ⟨htypeB, hkeyB, hsetB, -, -⟩ := fields_of_identity hB
  constructor
  · rw [category_setUp (setUp_collided "a"), category_setUp (setUp_collided "b"), htypeA, hkeyA,
      hsetA, htypeB, hkeyB, hsetB]
    decide
  · rw [htypeA, htypeB]
    decide

theorem message_collided :
    (∀ line, (collided "b").message line = (collided "c").message line) ∧
      (collided "b").members.accesskey ≠ (collided "c").members.accesskey := by
  obtain ⟨-, -, hB, hC⟩ := collided_parsed
  obtain ⟨-, hkeyB, -, hfromB, hportB⟩ := fields_of_identity hB
  obtain ⟨-, hkeyC, -, hfromC, hportC⟩ := fields_of_identity hC
  constructor
  · intro line
    rw [message_setUp (setUp_collided "b"), message_setUp (setUp_collided "c"), hkeyB, hfromB,
      hportB, hkeyC, hfromC, hportC, localAn_collided, localAn_collided]
    rfl
  · rw [hkeyB, hkeyC]
    decide

/-- For any two models and any two lines: the same category means the same type, key and data
set, and the same message the same source and line, unless a separator is in a field of one
of them and in a later field of the other. -/
theorem source_or_shift {mode mode' : Mode} {garbage garbage' : String → Int} {w w' : World}
    {name name' : Bytes} {values values' : StringMap} {r r' : Model}
    (h : setUp mode garbage w (name, values) = some r)
    (h' : setUp mode' garbage' w' (name', values') = some r') :
    (r.category = r'.category →
      (r.members.type = r'.members.type ∧ r.members.accesskey = r'.members.accesskey ∧
        r.members.set_ = r'.members.set_) ∨ CategoryShift r r' ∨ CategoryShift r' r) ∧
    ∀ line line', r.message line = r'.message line' →
      (r.members.accesskey = r'.members.accesskey ∧ r.members.from_ = r'.members.from_ ∧
        r.members.logServerPort = r'.members.logServerPort ∧ r.localAn = r'.localAn ∧
        line = line') ∨ MessageShift r r' line' ∨ MessageShift r' r line :=
  ⟨owner_or_shift h h', fun _ _ heq => origin_or_shift h h' heq⟩

/-- An underscore is in the type of one section and in the key of the other. -/
theorem source_or_shift_colliding :
    CategoryShift (collided "a") (collided "b") ∨ CategoryShift (collided "b") (collided "a") := by
  obtain ⟨hcategory, htypes⟩ := category_collided
  rcases (source_or_shift (setUp_collided "a") (setUp_collided "b")).1 hcategory with
    ⟨htype, -, -⟩ | hshift
  · exact absurd htype htypes
  · exact hshift

/-- `a` and `b` share a category, `b` and `c` all messages. -/
theorem not_source_colliding :
    (Conf.parseModel (readConfFile (some collidingText)) ∅).1 = true ∧
      ∃ rs, main .f (fun _ => 0) (sampleWorld collidingText [] []) (ascii "c") = some rs ∧
        ∃ a ∈ rs, ∃ b ∈ rs, ∃ c ∈ rs,
          (∀ r ∈ [a, b, c], (parseModel (fun _ => 0) r.modelconfig).1 = true) ∧
          (a.category = b.category ∧ a.members.type ≠ b.members.type) ∧
          (∀ line, b.message line = c.message line) ∧
          b.members.accesskey ≠ c.members.accesskey := by
  obtain ⟨rs, hrs⟩ : ∃ rs, main .f (fun _ => 0) (sampleWorld collidingText [] [])
      (ascii "c") = some rs := setUpAll_isSome_iff.mpr nofun
  refine ⟨collided_parsed.1.1, rs, hrs, collided "a", collided_mem hrs "a" (by simp), collided "b",
    collided_mem hrs "b" (by simp), collided "c", collided_mem hrs "c" (by simp), ?_,
    category_collided, message_collided⟩
  have haccepted : ∀ name ∈ ["a", "b", "c"],
      (parseModel (fun _ => 0) (collided name).modelconfig).1 = true := fun name hname =>
    (collided_parsed.1.2 name hname).2
  simpa only [List.forall_mem_cons, List.not_mem_nil, false_imp_iff, implies_true, and_true]
    using haccepted

end ModelRead
