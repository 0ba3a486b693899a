import Mnema.ContentRange
import Mnema.Lib.PythonJson

/-! The gate on the SMART report: which reports `smart_report_healthy` answers for, and which of
them it may call healthy. -/

namespace Mnema.SmartReport

open PyJson PyText

inductive SmartError where
  | osError
  | valueError
  | keyError
  | attributeError
  | typeError
  | overflowError
  | recursionError
deriving DecidableEq

/-- What `smart_report_healthy` answers with `False`. -/
def SmartError.caught : SmartError → Bool
  | .osError => true
  | .valueError => true
  | .keyError => true
  | _ => false

structure SmartDisk where
  mount : Text
  device : Text
  model : Text
  serial : Text
  passed : Bool
  temperatureCelsius : Option ℤ
  powerOnHours : Option ℤ

def key (name : String) : Text := ofChars name.toList

/-! ### Conversions -/

/-- `bool(value)`. -/
def truth : Value → Bool
  | .none => false
  | .bool b => b
  | .int n => n != 0
  | .float (.finite q) => q != 0
  | .float _ => true
  | .str text => !text.isEmpty
  | .list items => !items.isEmpty
  | .dict items => !items.isEmpty

/-- A text without surrogates. -/
def characters (text : Text) : Option (List Char) :=
  text.mapM fun c => if isHigh c ∨ isLow c then none else some (Char.ofNat c.val)

section Builtins

-- `str` of a value, and what Python knows of digits
variable (str : Value → Text) (chars : Characters)

def intOfText (text : Text) : Option ℤ := do
  let cs ← characters text
  (chars.int cs).toOption

/-- `int(value)`. -/
def intOf : Value → Except SmartError ℤ
  | .none => .error .typeError
  | .bool b => .ok (if b then 1 else 0)
  | .int n => .ok n
  | .float (.finite q) => .ok (q.num.tdiv q.den)
  | .float .nan => .error .valueError
  | .float _ => .error .overflowError
  | .str text =>
    match intOfText chars text with
    | some n => .ok n
    | none => .error .valueError
  | .list _ => .error .typeError
  | .dict _ => .error .typeError

/-- `_optional_int`. -/
def optionalInt : Value → Except SmartError (Option ℤ)
  | .none => .ok none
  | v => (intOf chars v).map some

/-- `entry[name]`. -/
def require (items : List (Text × Value)) (name : String) : Except SmartError Value :=
  match item (key name) items with
  | some v => .ok v
  | none => .error .keyError

/-- `entry.get(name)`. -/
def get (items : List (Text × Value)) (name : String) : Value := (item (key name) items).getD .none

/-- `str(entry.get(name, "unknown"))`. -/
def getStr (items : List (Text × Value)) (name : String) : Text :=
  str ((item (key name) items).getD (.str (key "unknown")))

def readDisk : Value → Except SmartError SmartDisk
  | .dict items => do
    let mount ← require items "mount"
    let device ← require items "device"
    let passed ← require items "passed"
    let temperature ← optionalInt chars (get items "temperature_celsius")
    let hours ← optionalInt chars (get items "power_on_hours")
    return {
      mount := str mount
      device := str device
      model := getStr str items "model"
      serial := getStr str items "serial"
      passed := truth passed
      temperatureCelsius := temperature
      powerOnHours := hours }
  | _ => .error .valueError

/-- `for entry in value`. -/
def iterate : Value → Except SmartError (List Value)
  | .list items => .ok items
  | .dict items => .ok ((items.map Prod.fst).eraseDups.map .str)
  | .str text => .ok (text.map fun c => .str [c])
  | _ => .error .typeError

/-- `payload.get("disks", [])`. -/
def disksOf (items : List (Text × Value)) : Value := (item (key "disks") items).getD (.list [])

def entriesOf : Value → Except SmartError (List Value)
  | .dict items => iterate (disksOf items)
  | _ => .error .attributeError

/-- `path.read_text(encoding="utf-8")` of the bytes of the file, if there are any to read. -/
def readText (file : Option (List UInt8)) : Except SmartError (List Char) :=
  match file with
  | none => .error .osError
  | some bytes =>
    match utf8Decode bytes with
    | none => .error .valueError
    | some text => .ok (universalNewlines text)

def loadsReport (limit : ℕ) (text : List Char) : Except SmartError Value :=
  match loads limit text with
  | .ok payload => .ok payload
  | .error .valueError => .error .valueError
  | .error .recursionError => .error .recursionError

def readDisks (entries : List Value) : Except SmartError (List SmartDisk) := do
  let disks ← entries.mapM (readDisk str chars)
  if disks.isEmpty then .error .valueError else .ok disks

def readSmartHealth (limit : ℕ) (file : Option (List UInt8)) : Except SmartError (List SmartDisk) := do
  let text ← readText file
  let payload ← loadsReport limit text
  let entries ← entriesOf payload
  readDisks str chars entries

/-- `smart_report_healthy`, once the report has been read or could not be. -/
def answer : Except SmartError (List SmartDisk) → Except SmartError Bool
  | .error e => if e.caught then .ok false else .error e
  | .ok disks => .ok (disks.all SmartDisk.passed)

def smartReportHealthy (limit : ℕ) (file : Option (List UInt8)) : Except SmartError Bool :=
  answer (readSmartHealth str chars limit file)

/-! ### Which entries can be read -/

/-- `_optional_int` returns. -/
def Numeric : Value → Prop
  | .none => True
  | .bool _ => True
  | .int _ => True
  | .float (.finite _) => True
  | .str text => (intOfText chars text).isSome
  | _ => False

/-- `_optional_int` raises an exception that nobody catches. -/
def Unconvertible : Value → Prop
  | .float .infinity => True
  | .float .negInfinity => True
  | .list _ => True
  | .dict _ => True
  | _ => False

def Named (items : List (Text × Value)) : Prop :=
  (item (key "mount") items).isSome ∧ (item (key "device") items).isSome ∧ (item (key "passed") items).isSome

/-- The entry is an object from which a disk is read. -/
def Readable (entry : Value) : Prop :=
  ∃ items, entry = .dict items ∧ Named items ∧ Numeric chars (get items "temperature_celsius") ∧
    Numeric chars (get items "power_on_hours")

/-- The entry is an object with all its names, and one of its numbers cannot be one. -/
def Breaking (entry : Value) : Prop :=
  ∃ items, entry = .dict items ∧ Named items ∧ (Unconvertible (get items "temperature_celsius") ∨
    (Numeric chars (get items "temperature_celsius") ∧ Unconvertible (get items "power_on_hours")))

/-- The entry says that the disk passed, in one way or another. -/
def Truthy (entry : Value) : Prop :=
  ∃ items v, entry = .dict items ∧ item (key "passed") items = some v ∧ truth v = true

/-- The entry says that the disk passed. -/
def Passing (entry : Value) : Prop :=
  ∃ items, entry = .dict items ∧ item (key "passed") items = some (.bool true)

/-- What becomes of one entry. -/
inductive Reads (entry : Value) : Except SmartError SmartDisk → Prop
  | disk (disk : SmartDisk) (h : Readable chars entry) (hpassed : disk.passed = true ↔ Truthy entry) :
    Reads entry (.ok disk)
  | raised (e : SmartError) (h : Breaking chars entry) (he : e.caught = false) : Reads entry (.error e)
  | refused (e : SmartError) (hr : ¬Readable chars entry) (hb : ¬Breaking chars entry)
    (he : e.caught = true) : Reads entry (.error e)

variable {str chars}

variable (chars) in
theorem optionalInt_cases (v : Value) :
    (Numeric chars v ∧ ¬Unconvertible v ∧ ∃ n, optionalInt chars v = .ok n) ∨
      (¬Numeric chars v ∧ Unconvertible v ∧ ∃ e, optionalInt chars v = .error e ∧ e.caught = false) ∨
      (¬Numeric chars v ∧ ¬Unconvertible v ∧ ∃ e, optionalInt chars v = .error e ∧ e.caught = true) := by
  cases v with
  | none => exact .inl ⟨trivial, id, none, rfl⟩
  | bool b => exact .inl ⟨trivial, id, _, rfl⟩
  | int n => exact .inl ⟨trivial, id, _, rfl⟩
  | float x =>
    cases x with
    | finite q => exact .inl ⟨trivial, id, _, rfl⟩
    | infinity => exact .inr (.inl ⟨id, trivial, _, rfl, rfl⟩)
    | negInfinity => exact .inr (.inl ⟨id, trivial, _, rfl, rfl⟩)
    | nan => exact .inr (.inr ⟨id, id, _, rfl, rfl⟩)
  | str text =>
    cases hint : intOfText chars text with
    | some n =>
      refine .inl ⟨by rw [Numeric, hint]; rfl, id, some n, ?_⟩
      rw [optionalInt, intOf, hint]
      · rfl
      · rintro ⟨⟩
    | none =>
      refine .inr (.inr ⟨by rw [Numeric, hint]; exact Bool.false_ne_true, id, .valueError, ?_, rfl⟩)
      rw [optionalInt, intOf, hint]
      · rfl
      · rintro ⟨⟩
  | list items => exact .inr (.inl ⟨id, trivial, _, rfl, rfl⟩)
  | dict items => exact .inr (.inl ⟨id, trivial, _, rfl, rfl⟩)

theorem reads_of_not_dict {entry : Value} (h : ∀ items, entry ≠ .dict items) :
    Reads chars entry (.error .valueError) := by
  refine .refused _ ?_ ?_ rfl
  · rintro ⟨items, rfl, -⟩
    exact h items rfl
  · rintro ⟨items, rfl, -⟩
    exact h items rfl

theorem reads_of_unnamed {items : List (Text × Value)} (h : ¬Named items) :
    Reads chars (.dict items) (.error .keyError) := by
  refine .refused _ ?_ ?_ rfl
  · rintro ⟨others, hitems, hnamed, -⟩
    obtain rfl := Value.dict.inj hitems
    exact h hnamed
  · rintro ⟨others, hitems, hnamed, -⟩
    obtain rfl := Value.dict.inj hitems
    exact h hnamed

theorem readDisk_of_unnamed {items : List (Text × Value)} (h : ¬Named items) :
    readDisk str chars (.dict items) = .error .keyError := by
  rw [readDisk]
  unfold require
  cases hmount : item (key "mount") items with
  | none => rfl
  | some mount =>
    cases hdevice : item (key "device") items with
    | none => rfl
    | some device =>
      cases hpassed : item (key "passed") items with
      | none => rfl
      | some passed => exact absurd ⟨by rw [hmount]; rfl, by rw [hdevice]; rfl, by rw [hpassed]; rfl⟩ h

variable (str chars) in
/-- What is left to do for an object with all its names. -/
theorem readDisk_of_named {items : List (Text × Value)} {passed : Value} (h : Named items)
    (hpassed : item (key "passed") items = some passed) :
    ∃ disk : Option ℤ → Option ℤ → SmartDisk, (∀ a b, (disk a b).passed = truth passed) ∧
      readDisk str chars (.dict items) = (do
        let temperature ← optionalInt chars (get items "temperature_celsius")
        let hours ← optionalInt chars (get items "power_on_hours")
        return disk temperature hours) := by
  obtain ⟨mount, hmount⟩ := Option.isSome_iff_exists.1 h.1
  obtain ⟨device, hdevice⟩ := Option.isSome_iff_exists.1 h.2.1
  refine ⟨fun temperature hours => {
    mount := str mount
    device := str device
    model := getStr str items "model"
    serial := getStr str items "serial"
    passed := truth passed
    temperatureCelsius := temperature
    powerOnHours := hours }, fun _ _ => rfl, ?_⟩
  rw [readDisk, require, require, require, hmount, hdevice, hpassed]
  rfl

theorem reads_of_named {items : List (Text × Value)} (h : Named items) :
    Reads chars (.dict items) (readDisk str chars (.dict items)) := by
  obtain ⟨passed, hpassed⟩ := Option.isSome_iff_exists.1 h.2.2
  obtain ⟨disk, hdisk, hread⟩ := readDisk_of_named str chars h hpassed
  have hcondition : ∀ others, Value.dict items = .dict others → others = items :=
    fun others heq => (Value.dict.inj heq).symm
  rw [hread]
  rcases optionalInt_cases chars (get items "temperature_celsius") with
    ⟨htemp, hnot, temperature, hok⟩ | ⟨htemp, hbreak, e, herror, he⟩ | ⟨htemp, hnot, e, herror, he⟩
  · rw [hok]
    rcases optionalInt_cases chars (get items "power_on_hours") with
      ⟨hhour, hnoth, hours, hokh⟩ | ⟨hhour, hbreakh, e, herror, he⟩ | ⟨hhour, hnoth, e, herror, he⟩
    · rw [hokh]
      refine .disk _ ⟨items, rfl, h, htemp, hhour⟩ ?_
      rw [hdisk]
      constructor
      · exact fun htruth => ⟨items, passed, rfl, hpassed, htruth⟩
      · rintro ⟨others, v, heq, hv, htruth⟩
        rw [hcondition others heq, hpassed] at hv
        rw [Option.some.inj hv]
        exact htruth
    · rw [herror]
      exact .raised e ⟨items, rfl, h, .inr ⟨htemp, hbreakh⟩⟩ he
    · rw [herror]
      refine .refused e ?_ ?_ he
      · rintro ⟨others, heq, -, -, hnumeric⟩
        rw [hcondition others heq] at hnumeric
        exact hhour hnumeric
      · rintro ⟨others, heq, -, hbad⟩
        rw [hcondition others heq] at hbad
        rcases hbad with hbad | ⟨-, hbad⟩
        · exact hnot hbad
        · exact hnoth hbad
  · rw [herror]
    exact .raised e ⟨items, rfl, h, .inl hbreak⟩ he
  · rw [herror]
    refine .refused e ?_ ?_ he
    · rintro ⟨others, heq, -, hnumeric, -⟩
      rw [hcondition others heq] at hnumeric
      exact htemp hnumeric
    · rintro ⟨others, heq, -, hbad⟩
      rw [hcondition others heq] at hbad
      rcases hbad with hbad | ⟨hnumeric, -⟩
      · exact hnot hbad
      · exact htemp hnumeric

variable (str chars) in
theorem reads_readDisk (entry : Value) : Reads chars entry (readDisk str chars entry) := by
  cases entry with
  | dict items =>
    by_cases h : Named items
    · exact reads_of_named h
    · rw [readDisk_of_unnamed h]
      exact reads_of_unnamed h
  | _ => exact reads_of_not_dict fun items heq => by cases heq

/-! ### Reading all entries -/

/-- Behind entries that can be read comes one that raises what nobody catches. -/
def Broken (chars : Characters) (entries : List Value) : Prop :=
  ∃ front entry back, entries = front ++ entry :: back ∧ (∀ other ∈ front, Readable chars other) ∧
    Breaking chars entry

inductive ReadsAll (chars : Characters) (entries : List Value) : Except SmartError (List SmartDisk) → Prop
  | disks (disks : List SmartDisk) (h : ∀ entry ∈ entries, Readable chars entry)
    (hlength : disks.length = entries.length)
    (hpassed : disks.all SmartDisk.passed = true ↔ ∀ entry ∈ entries, Truthy entry) :
    ReadsAll chars entries (.ok disks)
  | raised (e : SmartError) (h : Broken chars entries) (he : e.caught = false) :
    ReadsAll chars entries (.error e)
  | refused (e : SmartError) (hr : ∃ entry ∈ entries, ¬Readable chars entry)
    (hb : ¬Broken chars entries) (he : e.caught = true) : ReadsAll chars entries (.error e)

theorem not_readable_of_breaking {entry : Value} (h : Breaking chars entry) : ¬Readable chars entry := by
  obtain ⟨items, rfl, -, hbad⟩ := h
  rintro ⟨others, heq, -, htemp, hhour⟩
  obtain rfl := Value.dict.inj heq
  have hexclusive : ∀ v, Numeric chars v → ¬Unconvertible v := by
    intro v hnumeric hbreak
    rcases optionalInt_cases chars v with ⟨-, hnot, -⟩ | ⟨hnot, -, -⟩ | ⟨hnot, -, -⟩
    · exact hnot hbreak
    · exact hnot hnumeric
    · exact hnot hnumeric
  rcases hbad with hbad | ⟨-, hbad⟩
  · exact hexclusive _ htemp hbad
  · exact hexclusive _ hhour hbad

theorem broken_cons {entry : Value} {entries : List Value} :
    Broken chars (entry :: entries) ↔
      Breaking chars entry ∨ (Readable chars entry ∧ Broken chars entries) := by
  constructor
  · rintro ⟨front, broken, back, hsplit, hfront, hbroken⟩
    cases front with
    | nil =>
      obtain ⟨rfl, rfl⟩ := List.cons.inj hsplit
      exact .inl hbroken
    | cons first front =>
      obtain ⟨rfl, rfl⟩ := List.cons.inj hsplit
      exact .inr ⟨hfront entry List.mem_cons_self, front, broken, back, rfl,
        fun other hother => hfront other (List.mem_cons_of_mem entry hother), hbroken⟩
  · rintro (hbroken | ⟨hread, front, broken, back, rfl, hfront, hbroken⟩)
    · exact ⟨[], entry, entries, rfl, by simp, hbroken⟩
    · exact ⟨entry :: front, broken, back, rfl, List.forall_mem_cons.2 ⟨hread, hfront⟩, hbroken⟩

variable (str chars) in
theorem readsAll_mapM (entries : List Value) :
    ReadsAll chars entries (entries.mapM (readDisk str chars)) := by
  induction entries with
  | nil => exact .disks [] (by simp) rfl (by simp)
  | cons entry entries ih =>
    rw [List.mapM_cons]
    generalize hread : readDisk str chars entry = one
    have hone := reads_readDisk str chars entry
    rw [hread] at hone
    cases hone with
    | raised e h he => exact .raised e (broken_cons.2 (.inl h)) he
    | refused e hr hb he =>
      refine .refused e ⟨entry, List.mem_cons_self, hr⟩ ?_ he
      rw [broken_cons]
      rintro (hbroken | ⟨hreadable, -⟩)
      · exact hb hbroken
      · exact hr hreadable
    | disk disk h hpassed =>
      generalize hrest : entries.mapM (readDisk str chars) = rest
      rw [hrest] at ih
      cases ih with
      | disks disks hall hlength hpassedall =>
        refine .disks (disk :: disks) (List.forall_mem_cons.2 ⟨h, hall⟩) (by simp [hlength]) ?_
        rw [List.all_cons, Bool.and_eq_true, hpassed, hpassedall, List.forall_mem_cons]
      | raised e hbroken he => exact .raised e (broken_cons.2 (.inr ⟨h, hbroken⟩)) he
      | refused e hr hb he =>
        obtain ⟨other, hother, hnot⟩ := hr
        refine .refused e ⟨other, List.mem_cons_of_mem entry hother, hnot⟩ ?_ he
        rw [broken_cons]
        rintro (hbroken | ⟨-, hbroken⟩)
        · exact not_readable_of_breaking hbroken h
        · exact hb hbroken

/-! ### The report as a whole -/

def textOf (file : Option (List UInt8)) : Option (List Char) := (readText file).toOption

/-- The JSON value that the file holds. -/
def payloadOf (file : Option (List UInt8)) : Option Value := (textOf file).bind read

/-- The report is an object with disks, and every one of them is an object that passed. -/
def Attests (file : Option (List UInt8)) : Prop :=
  ∃ items entries, payloadOf file = some (.dict items) ∧ item (key "disks") items = some (.list entries) ∧
    entries ≠ [] ∧ ∀ entry ∈ entries, ∃ fields, entry = .dict fields ∧ Named fields ∧
      item (key "passed") fields = some (.bool true)

/-- There is an answer, and it is yes only for a report that attests it. -/
def Honest (str : Value → Text) (chars : Characters) (limit : ℕ) (file : Option (List UInt8)) : Prop :=
  ∃ healthy, smartReportHealthy str chars limit file = .ok healthy ∧ (healthy = true → Attests file)

def Iterable (v : Value) : Prop :=
  (∃ entries, v = .list entries) ∨ (∃ items, v = .dict items) ∨ ∃ text, v = .str text

/-- The shapes that a report may have: not JSON at all, or an object that can be gone through. -/
structure Regular (chars : Characters) (limit : ℕ) (file : Option (List UInt8)) : Prop where
  shallow : ∀ text, textOf file = some text → ¬NestsBeyond limit text
  object : ∀ payload, payloadOf file = some payload → ∃ items, payload = .dict items
  iterable : ∀ items v, payloadOf file = some (.dict items) → item (key "disks") items = some v → Iterable v
  unbroken : ∀ items entries, payloadOf file = some (.dict items) →
    item (key "disks") items = some (.list entries) → ¬Broken chars entries
  strict : ∀ items entries, payloadOf file = some (.dict items) →
    item (key "disks") items = some (.list entries) →
    (∀ entry ∈ entries, Readable chars entry ∧ Truthy entry) → ∀ entry ∈ entries, Passing entry

variable {limit : ℕ} {file : Option (List UInt8)} {text : List Char} {payload : Value}
  {items : List (Text × Value)} {entries : List Value}

theorem readText_of_textOf (h : textOf file = some text) : readText file = .ok text := by
  unfold textOf at h
  cases hread : readText file with
  | error e =>
    rw [hread] at h
    cases h
  | ok other =>
    rw [hread] at h
    rw [Option.some.inj h]

theorem healthy_of_unreadable (h : textOf file = none) :
    smartReportHealthy str chars limit file = .ok false := by
  unfold textOf readText at h
  cases file with
  | none => rfl
  | some bytes =>
    cases hdecode : utf8Decode bytes with
    | none =>
      rw [smartReportHealthy, readSmartHealth, readText]
      simp only [hdecode]
      rfl
    | some text =>
      simp only [hdecode] at h
      cases h

theorem healthy_of_text (h : textOf file = some text) :
    smartReportHealthy str chars limit file =
      answer (loadsReport limit text >>= fun payload => entriesOf payload >>= readDisks str chars) := by
  rw [smartReportHealthy, readSmartHealth, readText_of_textOf h]
  rfl

theorem healthy_of_deep (h : textOf file = some text) (hnests : NestsBeyond limit text) :
    smartReportHealthy str chars limit file = .error .recursionError := by
  rw [healthy_of_text h, loadsReport, loads_of_nests hnests]
  rfl

theorem healthy_of_no_json (h : textOf file = some text) (hnests : ¬NestsBeyond limit text)
    (hread : read text = none) : smartReportHealthy str chars limit file = .ok false := by
  rw [healthy_of_text h, loadsReport, loads_of_not_read hnests hread]
  rfl

variable (str chars) in
theorem healthy_of_payload (hshallow : ∀ text, textOf file = some text → ¬NestsBeyond limit text)
    (h : payloadOf file = some payload) :
    smartReportHealthy str chars limit file = answer (entriesOf payload >>= readDisks str chars) := by
  obtain ⟨text, htext, hread⟩ := Option.bind_eq_some_iff.1 h
  rw [healthy_of_text htext, loadsReport, loads_of_read (hshallow text htext) hread]
  rfl

theorem entriesOf_disks {v : Value} (h : item (key "disks") items = some v) :
    entriesOf (.dict items) = iterate v := by
  rw [entriesOf, disksOf, h]
  rfl

theorem healthy_of_list (hshallow : ∀ text, textOf file = some text → ¬NestsBeyond limit text)
    (h : payloadOf file = some (.dict items)) (hdisks : item (key "disks") items = some (.list entries)) :
    smartReportHealthy str chars limit file = answer (readDisks str chars entries) := by
  rw [healthy_of_payload str chars hshallow h, entriesOf_disks hdisks]
  rfl

/-- Something that holds no object is refused. -/
theorem answer_of_strings (h : ∀ entry ∈ entries, ∃ text, entry = .str text) :
    answer (readDisks str chars entries) = .ok false := by
  unfold readDisks
  cases entries with
  | nil => rfl
  | cons entry entries =>
    obtain ⟨text, rfl⟩ := h entry List.mem_cons_self
    rw [List.mapM_cons]
    rfl

variable (str) in
theorem answer_of_broken (h : Broken chars entries) :
    ∃ e, answer (readDisks str chars entries) = .error e := by
  have hall := readsAll_mapM str chars entries
  unfold readDisks
  generalize entries.mapM (readDisk str chars) = result at hall ⊢
  cases hall with
  | disks disks hread =>
    obtain ⟨front, entry, back, rfl, -, hbroken⟩ := h
    exact absurd (hread entry (by simp)) (not_readable_of_breaking hbroken)
  | raised e _ he =>
    refine ⟨e, ?_⟩
    show answer (.error e) = _
    rw [answer, he]
    rfl
  | refused e _ hb => exact absurd h hb

variable (str) in
theorem answer_of_unbroken (h : ¬Broken chars entries) :
    ∃ healthy, answer (readDisks str chars entries) = .ok healthy ∧
      (healthy = true ↔ entries ≠ [] ∧ ∀ entry ∈ entries, Readable chars entry ∧ Truthy entry) := by
  have hall := readsAll_mapM str chars entries
  unfold readDisks
  generalize entries.mapM (readDisk str chars) = result at hall ⊢
  cases hall with
  | disks disks hread hlength hpassed =>
    cases disks with
    | nil =>
      have hempty : entries = [] := List.eq_nil_of_length_eq_zero hlength.symm
      exact ⟨false, rfl, by simp [hempty]⟩
    | cons disk disks =>
      have hne : entries ≠ [] := by
        rintro rfl
        cases hlength
      refine ⟨(disk :: disks).all SmartDisk.passed, rfl, ?_⟩
      rw [hpassed]
      exact ⟨fun htruthy => ⟨hne, fun entry hentry => ⟨hread entry hentry, htruthy entry hentry⟩⟩,
        fun hboth entry hentry => (hboth.2 entry hentry).2⟩
  | raised e hbroken => exact absurd hbroken h
  | refused e hr _ he =>
    refine ⟨false, ?_, ?_⟩
    · show answer (.error e) = _
      rw [answer, he]
      rfl
    · obtain ⟨entry, hentry, hnot⟩ := hr
      simp only [Bool.false_eq_true, false_iff, not_and]
      exact fun _ hboth => hnot (hboth entry hentry).1

theorem honest_of_false (h : smartReportHealthy str chars limit file = .ok false) :
    Honest str chars limit file := ⟨false, h, fun heq => by cases heq⟩

theorem not_honest_of_error {e : SmartError} (h : smartReportHealthy str chars limit file = .error e) :
    ¬Honest str chars limit file := by
  rintro ⟨healthy, hok, -⟩
  rw [h] at hok
  cases hok

theorem honest_of_regular (h : Regular chars limit file) : Honest str chars limit file := by
  cases htext : textOf file with
  | none => exact honest_of_false (healthy_of_unreadable htext)
  | some text =>
    cases hread : read text with
    | none => exact honest_of_false (healthy_of_no_json htext (h.shallow text htext) hread)
    | some payload =>
      have hpayload : payloadOf file = some payload := Option.bind_eq_some_iff.2 ⟨text, htext, hread⟩
      obtain ⟨items, rfl⟩ := h.object payload hpayload
      have hanswer := healthy_of_payload str chars h.shallow hpayload
      cases hdisks : item (key "disks") items with
      | none =>
        have hempty : entriesOf (.dict items) = .ok [] := by
          rw [entriesOf, disksOf, hdisks]
          rfl
        rw [hempty] at hanswer
        exact honest_of_false hanswer
      | some v =>
        rw [entriesOf_disks hdisks] at hanswer
        rcases h.iterable items v hpayload hdisks with ⟨entries, rfl⟩ | ⟨others, rfl⟩ | ⟨name, rfl⟩
        · obtain ⟨healthy, hok, hyes⟩ := answer_of_unbroken str (h.unbroken items entries hpayload hdisks)
          refine ⟨healthy, hanswer.trans hok, fun htrue => ?_⟩
          obtain ⟨hne, hboth⟩ := hyes.1 htrue
          have hpassing := h.strict items entries hpayload hdisks hboth
          refine ⟨items, entries, hpayload, hdisks, hne, fun entry hentry => ?_⟩
          obtain ⟨fields, rfl, hnamed, -⟩ := (hboth entry hentry).1
          obtain ⟨others, heq, hpassed⟩ := hpassing _ hentry
          obtain rfl := Value.dict.inj heq
          exact ⟨fields, rfl, hnamed, hpassed⟩
        · refine honest_of_false (hanswer.trans (answer_of_strings fun entry hentry => ?_))
          obtain ⟨name, -, rfl⟩ := List.mem_map.1 hentry
          exact ⟨name, rfl⟩
        · refine honest_of_false (hanswer.trans (answer_of_strings fun entry hentry => ?_))
          obtain ⟨c, -, rfl⟩ := List.mem_map.1 hentry
          exact ⟨[c], rfl⟩

theorem regular_of_honest (h : Honest str chars limit file) : Regular chars limit file := by
  have hshallow : ∀ text, textOf file = some text → ¬NestsBeyond limit text :=
    fun text htext hnests => not_honest_of_error (healthy_of_deep htext hnests) h
  refine ⟨hshallow, ?_, ?_, ?_, ?_⟩
  · intro payload hpayload
    by_contra hno
    have hanswer := healthy_of_payload str chars hshallow hpayload
    have hraise : entriesOf payload = .error .attributeError := by
      cases payload with
      | dict items => exact absurd ⟨items, rfl⟩ hno
      | _ => rfl
    rw [hraise] at hanswer
    exact not_honest_of_error hanswer h
  · intro items v hpayload hdisks
    by_contra hno
    have hanswer := healthy_of_payload str chars hshallow hpayload
    have hraise : iterate v = .error .typeError := by
      cases v with
      | list entries => exact absurd (.inl ⟨entries, rfl⟩) hno
      | dict others => exact absurd (.inr (.inl ⟨others, rfl⟩)) hno
      | str text => exact absurd (.inr (.inr ⟨text, rfl⟩)) hno
      | _ => rfl
    rw [entriesOf_disks hdisks, hraise] at hanswer
    exact not_honest_of_error hanswer h
  · intro items entries hpayload hdisks hbroken
    obtain ⟨e, herror⟩ := answer_of_broken str hbroken
    exact not_honest_of_error ((healthy_of_list hshallow hpayload hdisks).trans herror) h
  · intro items entries hpayload hdisks hboth entry hentry
    have hunbroken : ¬Broken chars entries := by
      rintro ⟨front, broken, back, rfl, -, hbroken⟩
      exact not_readable_of_breaking hbroken (hboth broken (by simp)).1
    obtain ⟨healthy, hok, hyes⟩ := answer_of_unbroken str hunbroken
    obtain ⟨other, hother, hattests⟩ := h
    rw [healthy_of_list hshallow hpayload hdisks, hok] at hother
    have htrue : other = true := by
      rw [← Except.ok.inj hother]
      exact hyes.2 ⟨List.ne_nil_of_mem hentry, hboth⟩
    obtain ⟨others, attested, hothers, hattested, -, hall⟩ := hattests htrue
    rw [hpayload] at hothers
    obtain rfl := Value.dict.inj (Option.some.inj hothers)
    rw [hdisks] at hattested
    obtain rfl := Value.list.inj (Option.some.inj hattested)
    obtain ⟨fields, rfl, -, hpassed⟩ := hall entry hentry
    exact ⟨fields, rfl, hpassed⟩

end Builtins

end SmartReport

open SmartReport

/-- `smart_report_healthy` answers, and answers yes only for a report that attests it, exactly for
the reports of a regular shape. -/
theorem report_answered (str : PyJson.Value → PyJson.Text) (chars : Characters) (limit : ℕ)
    (file : Option (List UInt8)) : Honest str chars limit file ↔ Regular chars limit file :=
  ⟨regular_of_honest, honest_of_regular⟩

/-- A report that is a list raises, whatever the list holds. -/
theorem list_report_raises :
    ¬∀ (str : PyJson.Value → PyJson.Text) (chars : Characters) (limit : ℕ) (file : Option (List UInt8)),
      Honest str chars limit file := by
  intro h
  have hhonest := h (fun _ => []) ⟨fun _ => false, fun _ => none⟩ 1 (some [0x5b, 0x5d])
  have hpayload : payloadOf (some [0x5b, 0x5d]) = some (.list []) := by
    rfl
  obtain ⟨items, hitems⟩ := (regular_of_honest hhonest).object _ hpayload
  cases hitems

end Mnema
