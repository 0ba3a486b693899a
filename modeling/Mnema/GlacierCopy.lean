import Mnema.S3
import Mnema.Lib.Trace

/-! The multipart copy to the archive class: the ranges tile the object, and what is requested when a
part fails. -/

namespace Mnema.S3

/-! ### The ranges -/

theorem singleCopyLimit_eq : singleCopyLimit = 5368709120 := by
  unfold singleCopyLimit
  rfl

theorem minCopyPartSize_eq : minCopyPartSize = 67108864 := by
  unfold minCopyPartSize
  rfl

variable {size p : Nat}

theorem lt_div_iff_mul_lt (hp : 0 < p) (i : Nat) : i < (size + p - 1) / p ↔ i * p < size := by
  rw [← Nat.succ_le_iff, Nat.le_div_iff_mul_le hp, Nat.succ_mul]
  omega

theorem getElem?_copyRanges (hp : 0 < p) (i : Nat) :
    (copyRanges size p)[i]? =
      if i * p < size then some ⟨i + 1, i * p, min (i * p + p) size - 1⟩ else none := by
  unfold copyRanges stepsTo
  rw [List.getElem?_map, List.getElem?_zipIdx, List.getElem?_map]
  by_cases hi : i * p < size
  · rw [if_pos hi, List.getElem?_range ((lt_div_iff_mul_lt hp i).mpr hi)]
    simp [Nat.add_comm]
  · have hlen : (List.range ((size + p - 1) / p)).length ≤ i := by
      rw [List.length_range]
      exact Nat.not_lt.mp (mt (lt_div_iff_mul_lt hp i).mp hi)
    rw [if_neg hi, List.getElem?_eq_none hlen]
    rfl

theorem lt_length_copyRanges (hp : 0 < p) (i : Nat) :
    i < (copyRanges size p).length ↔ i * p < size := by
  rw [← lt_div_iff_mul_lt hp i]
  simp [copyRanges, stepsTo]

theorem mem_copyRanges (hp : 0 < p) {r : CopyRange} :
    r ∈ copyRanges size p ↔ ∃ i, i * p < size ∧ r = ⟨i + 1, i * p, min (i * p + p) size - 1⟩ := by
  rw [List.mem_iff_getElem?]
  constructor
  · rintro ⟨i, hi⟩
    rw [getElem?_copyRanges hp] at hi
    by_cases hlt : i * p < size
    · rw [if_pos hlt] at hi
      exact ⟨i, hlt, (Option.some.inj hi).symm⟩
    · rw [if_neg hlt] at hi
      cases hi
  · rintro ⟨i, hlt, rfl⟩
    exact ⟨i, by rw [getElem?_copyRanges hp, if_pos hlt]⟩

theorem numbers_copyRanges (hp : 0 < p) :
    (copyRanges size p).map (·.number) = List.range' 1 (copyRanges size p).length := by
  apply List.ext_getElem?
  intro i
  rw [List.getElem?_map, getElem?_copyRanges hp]
  by_cases hlt : i * p < size
  · rw [if_pos hlt, List.getElem?_range' ((lt_length_copyRanges hp i).mpr hlt)]
    simp [Nat.add_comm]
  · have hlen := mt (lt_length_copyRanges hp i).mp hlt
    rw [if_neg hlt, List.getElem?_eq_none (by rw [List.length_range']; exact Nat.not_lt.mp hlen)]
    rfl

theorem covers_copyRanges (hp : 0 < p) (b : Nat) :
    b < size ↔ ∃ r ∈ copyRanges size p, r.first ≤ b ∧ b ≤ r.last := by
  constructor
  · intro hb
    have hlow := Nat.div_mul_le_self b p
    have hhigh := Nat.lt_div_mul_add hp (a := b)
    refine ⟨_, (mem_copyRanges hp).mpr ⟨b / p, by omega, rfl⟩, hlow, ?_⟩
    simp only
    omega
  · rintro ⟨r, hr, -, hlast⟩
    obtain ⟨i, hi, rfl⟩ := (mem_copyRanges hp).mp hr
    simp only at hlast
    omega

theorem disjoint_copyRanges (hp : 0 < p) :
    (copyRanges size p).Pairwise fun r r' => r.last < r'.first := by
  rw [List.pairwise_iff_getElem]
  intro i j hi hj hij
  have hri : (copyRanges size p)[i]? = _ := getElem?_copyRanges hp i
  have hrj : (copyRanges size p)[j]? = _ := getElem?_copyRanges hp j
  rw [if_pos ((lt_length_copyRanges hp i).mp hi), List.getElem?_eq_getElem hi] at hri
  rw [if_pos ((lt_length_copyRanges hp j).mp hj), List.getElem?_eq_getElem hj] at hrj
  rw [Option.some.inj hri, Option.some.inj hrj]
  have hmul : (i + 1) * p ≤ j * p := Nat.mul_le_mul_right p hij
  rw [Nat.succ_mul] at hmul
  simp only
  omega

theorem contiguous_copyRanges (hp : 0 < p) {i : Nat} {r r' : CopyRange}
    (hr : (copyRanges size p)[i]? = some r) (hr' : (copyRanges size p)[i + 1]? = some r') :
    r'.first = r.last + 1 := by
  rw [getElem?_copyRanges hp] at hr hr'
  by_cases hlt : (i + 1) * p < size
  · have hprev : i * p < size := (Nat.mul_le_mul_right p (Nat.le_succ i)).trans_lt hlt
    rw [if_pos hlt] at hr'
    rw [if_pos hprev] at hr
    obtain rfl := Option.some.inj hr
    obtain rfl := Option.some.inj hr'
    rw [Nat.succ_mul] at hlt ⊢
    simp only
    omega
  · rw [if_neg hlt] at hr'
    cases hr'

theorem length_le_of_copyRanges (hp : 0 < p) {r : CopyRange} (hr : r ∈ copyRanges size p) :
    r.last + 1 - r.first ≤ p := by
  obtain ⟨i, hi, rfl⟩ := (mem_copyRanges hp).mp hr
  simp only
  omega

theorem length_eq_of_copyRanges (hp : 0 < p) {i : Nat} {r : CopyRange}
    (hr : (copyRanges size p)[i]? = some r) (hnext : i + 1 < (copyRanges size p).length) :
    r.last + 1 - r.first = p := by
  have hlt := (lt_length_copyRanges hp (i + 1)).mp hnext
  rw [Nat.succ_mul] at hlt
  rw [getElem?_copyRanges hp, if_pos (by omega)] at hr
  obtain rfl := Option.some.inj hr
  simp only
  omega

/-! ### The part size -/

theorem ceil_quotient (hlow : singleCopyLimit < size) (hhigh : size ≤ 5 * 1024 ^ 4) :
    ⌈Double.ofRat ((size : ℚ) / (maxMultipartParts : ℚ))⌉ = ⌈(size : ℚ) / (maxMultipartParts : ℚ)⌉ := by
  rw [singleCopyLimit_eq] at hlow
  have hmax : maxMultipartParts = 10000 := rfl
  apply Double.ceil_ofRat_div
  · omega
  · omega
  · omega

theorem minCopyPartSize_le_partSize (size : Nat) : minCopyPartSize ≤ partSize size := le_max_left _ _

theorem partSize_pos : 0 < partSize size := by
  have hmin := minCopyPartSize_le_partSize size
  rw [minCopyPartSize_eq] at hmin
  omega

theorem size_le_parts (hlow : singleCopyLimit < size) (hhigh : size ≤ 5 * 1024 ^ 4) :
    size ≤ maxMultipartParts * partSize size := by
  have hceil := Int.le_ceil ((size : ℚ) / (maxMultipartParts : ℚ))
  rw [← ceil_quotient hlow hhigh] at hceil
  have hpart : ⌈Double.ofRat ((size : ℚ) / (maxMultipartParts : ℚ))⌉ ≤ (partSize size : Int) :=
    (Int.self_le_toNat _).trans (Int.ofNat_le.mpr (le_max_right _ _))
  have hrat : (size : ℚ) / (maxMultipartParts : ℚ) ≤ (partSize size : ℚ) :=
    hceil.trans (by exact_mod_cast hpart)
  rw [div_le_iff₀ (by norm_num [maxMultipartParts]), mul_comm] at hrat
  exact_mod_cast hrat

theorem partSize_le (hlow : singleCopyLimit < size) (hhigh : size ≤ 5 * 1024 ^ 4) :
    partSize size ≤ singleCopyLimit := by
  unfold partSize
  rw [ceil_quotient hlow hhigh, singleCopyLimit_eq, minCopyPartSize_eq]
  apply max_le
  · omega
  · rw [Int.toNat_le]
    apply Int.ceil_le.mpr
    rw [div_le_iff₀ (by norm_num [maxMultipartParts])]
    have hsize : (size : ℚ) ≤ (5 * 1024 ^ 4 : Nat) := by exact_mod_cast hhigh
    refine hsize.trans ?_
    norm_num [maxMultipartParts]

/-- The ranges are numbered from one, cover the object once and keep to the limits of S3. -/
structure TilesObject (size : Nat) (ranges : List CopyRange) : Prop where
  numbered : ranges.map (·.number) = List.range' 1 ranges.length
  few : ranges.length ≤ 10000
  covers : ∀ b, b < size ↔ ∃ r ∈ ranges, r.first ≤ b ∧ b ≤ r.last
  disjoint : ranges.Pairwise fun r r' => r.last < r'.first
  contiguous : ∀ i r r', ranges[i]? = some r → ranges[i + 1]? = some r' → r'.first = r.last + 1
  atLeast : ∀ i r, ranges[i]? = some r → i + 1 < ranges.length →
    64 * 1024 ^ 2 ≤ r.last + 1 - r.first
  atMost : ∀ r ∈ ranges, r.last + 1 - r.first ≤ 5 * 1024 ^ 3

theorem copyRanges_tile (hlow : singleCopyLimit < size) (hhigh : size ≤ 5 * 1024 ^ 4) :
    TilesObject size (copyRanges size (partSize size)) where
  numbered := numbers_copyRanges partSize_pos
  few := by
    rw [← Nat.not_lt, lt_length_copyRanges partSize_pos, Nat.not_lt]
    exact size_le_parts hlow hhigh
  covers := covers_copyRanges partSize_pos
  disjoint := disjoint_copyRanges partSize_pos
  contiguous _ _ _ hr hr' := contiguous_copyRanges partSize_pos hr hr'
  atLeast i r hr hnext := by
    have hmin := minCopyPartSize_le_partSize size
    rw [minCopyPartSize_eq] at hmin
    rw [length_eq_of_copyRanges partSize_pos hr hnext]
    omega
  atMost r hr := by
    have hmax := partSize_le hlow hhigh
    rw [singleCopyLimit_eq] at hmax
    have hlen := length_le_of_copyRanges partSize_pos hr
    omega

/-! ### What is requested -/

open Prog (Trace Traces Records)

/-- The exception that the copy of a part, or the completing request, raises. -/
def failure : (c : (o : Op) × Answer o) → Option Error
  | ⟨.uploadPartCopy .., .error e⟩ => some e
  | ⟨.uploadPartCopy .., .ok none⟩ => some (.key "ETag")
  | ⟨.completeMultipartUpload .., .error e⟩ => some e
  | _ => none

/-- The part that a request has copied. -/
def copiedPart : (c : (o : Op) × Answer o) → Option Part
  | ⟨.uploadPartCopy _ _ range _, .ok (some etag)⟩ => some { etag, partNumber := range.number }
  | _ => none

variable {storage : S3EncryptedColdStorage} {key : String} {source : CopySource} {uploadId : String}
  {metadata : List (String × String)} {trace : Trace Answer}

/-- Parts copied one after another without a failure. -/
structure Copied (key : String) (source : CopySource) (uploadId : String) (ranges : List CopyRange)
    (calls : Trace Answer) : Prop where
  requested : calls.map (·.1) = ranges.map (.uploadPartCopy key source · uploadId)
  succeed : ∀ c ∈ calls, failure c = none

/-- The last call of the trace raised, and the copies before it did not. -/
def FailedAfter (key : String) (source : CopySource) (uploadId : String) (before : Trace Answer)
    (e : Error) (trace : Trace Answer) : Prop :=
  ∃ ranges calls c, trace = before ++ calls ++ [c] ∧ Copied key source uploadId ranges calls ∧
    failure c = some e

theorem failedAfter_now {before : Trace Answer} {c : (o : Op) × Answer o} {e : Error}
    (h : failure c = some e) : FailedAfter key source uploadId before e (before ++ [c]) :=
  ⟨[], [], c, by rw [List.append_nil], ⟨rfl, nofun⟩, h⟩

theorem Copied.cons {range : CopyRange} {ranges : List CopyRange} {calls : Trace Answer}
    (h : Copied key source uploadId ranges calls) (etag : String) :
    Copied key source uploadId (range :: ranges)
      (⟨.uploadPartCopy key source range uploadId, .ok (some etag)⟩ :: calls) where
  requested := by rw [List.map_cons, h.requested, List.map_cons]
  succeed c hc := by
    rcases List.mem_cons.mp hc with rfl | hc
    · rfl
    · exact h.succeed c hc

theorem request_bind {β : Type} (o : Op) (f : Reply o → S3Prog β) :
    (request o >>= f) = (Prog.op o >>= fun a => Prog.ofExcept a >>= f) := rfl

theorem copyParts_records (ranges : List CopyRange) (parts : List Part) (trace : Trace Answer) :
    (copyParts key source uploadId ranges parts).Records
      (fun parts' t => ∃ calls, t = trace ++ calls ∧ Copied key source uploadId ranges calls ∧
        parts' = parts ++ calls.filterMap copiedPart)
      (FailedAfter key source uploadId trace) trace := by
  induction ranges generalizing parts trace with
  | nil => exact ⟨[], by simp, ⟨rfl, nofun⟩, by simp⟩
  | cons range rest ih =>
    unfold copyParts
    rw [request_bind, Prog.records_op_bind]
    intro a
    rcases a with e | etag
    · exact failedAfter_now rfl
    · rcases etag with _ | etag
      · exact failedAfter_now rfl
      · have hrest := ih (parts ++ [{ etag, partNumber := range.number }])
          (trace ++ [⟨.uploadPartCopy key source range uploadId, .ok (some etag)⟩])
        apply Records.mono hrest
        · rintro parts' t ⟨calls, rfl, hcalls, rfl⟩
          exact ⟨_, by rw [List.append_assoc, List.singleton_append], hcalls.cons etag, by simp [copiedPart]⟩
        · rintro e t ⟨ranges', calls, c, rfl, hcalls, hc⟩
          exact ⟨range :: ranges', _, c, by simp, hcalls.cons etag, hc⟩

theorem copyAndComplete_records (size : Nat) :
    (copyAndComplete key source uploadId size).Records
      (fun _ t => ∃ calls, Copied key source uploadId (copyRanges size (partSize size)) calls ∧
        t = trace ++ calls ++
          [⟨.completeMultipartUpload key uploadId (calls.filterMap copiedPart), .ok ()⟩])
      (FailedAfter key source uploadId trace) trace := by
  unfold copyAndComplete Records
  rw [Prog.wp_bind]
  apply Records.mono (copyParts_records _ [] trace)
  · rintro parts t ⟨calls, rfl, hcalls, rfl⟩
    refine ⟨trivial, ?_⟩
    rintro a t rfl
    rcases a with e | done
    · exact ⟨_, calls, _, rfl, hcalls, rfl⟩
    · exact ⟨calls, hcalls, rfl⟩
  · exact fun e t ht => ht

/-- What the requests were when the copy failed: the last one aborts the upload that was created. -/
def AbortedOnce (storage : S3EncryptedColdStorage) (key : String) (source : CopySource)
    (metadata : List (String × String)) (trace : Trace Answer) (e : Error) (r : Except Error Unit) :
    Prop :=
  ∃ uploadId before answer,
    FailedAfter key source uploadId
      [⟨.createMultipartUpload key metadata storage.archiveStorageClass, .ok (some uploadId)⟩] e before ∧
    trace = before ++ [⟨.abortMultipartUpload key uploadId, answer⟩] ∧
    r = match answer with
      | .ok () => .error e
      | .error e' => .error e'

/-- What the requests were when nothing failed: every part, then the one that completes the upload. -/
def CompletedOnce (storage : S3EncryptedColdStorage) (key : String) (source : CopySource)
    (metadata : List (String × String)) (size : Nat) (trace : Trace Answer)
    (r : Except Error Unit) : Prop :=
  ∃ uploadId calls,
    Copied key source uploadId (copyRanges size (partSize size)) calls ∧
    trace = [⟨.createMultipartUpload key metadata storage.archiveStorageClass, .ok (some uploadId)⟩] ++
      calls ++ [⟨.completeMultipartUpload key uploadId (calls.filterMap copiedPart), .ok ()⟩] ∧
    r = .ok ()

/-- No upload was created. -/
def NotCreated (storage : S3EncryptedColdStorage) (key : String)
    (metadata : List (String × String)) (trace : Trace Answer) : Prop :=
  ∃ answer, trace = [⟨.createMultipartUpload key metadata storage.archiveStorageClass, answer⟩] ∧
    ∀ uploadId, answer ≠ .ok (some uploadId)

theorem multipartArchiveCopy_records (storage : S3EncryptedColdStorage) (key : String)
    (source : CopySource) (size : Nat) (metadata : List (String × String)) :
    (multipartArchiveCopy storage key source size metadata).Records
      (fun _ t => CompletedOnce storage key source metadata size t (.ok ()))
      (fun e t => NotCreated storage key metadata t ∨
        ∃ e', AbortedOnce storage key source metadata t e' (.error e)) [] := by
  unfold multipartArchiveCopy
  rw [request_bind, Prog.records_op_bind]
  intro a
  rcases a with e | created
  · exact .inl ⟨_, rfl, nofun⟩
  · rcases created with _ | uploadId
    · exact .inl ⟨_, rfl, nofun⟩
    · show Records (tryCatch (copyAndComplete key source uploadId size) _) _ _ _
      unfold Records
      rw [Prog.wp_tryCatch]
      apply Records.mono (copyAndComplete_records size)
      · rintro _ t ⟨calls, hcalls, rfl⟩
        exact ⟨uploadId, calls, hcalls, rfl, rfl⟩
      · intro e t ht
        refine ⟨trivial, ?_⟩
        rintro answer t' rfl
        rcases answer with e' | done
        · exact .inr ⟨e, uploadId, t, .error e', ht, rfl, rfl⟩
        · exact .inr ⟨e, uploadId, t, .ok (), ht, rfl, rfl⟩

def isAbort : Op → Bool
  | .abortMultipartUpload .. => true
  | _ => false

def isCompletion : Op → Bool
  | .completeMultipartUpload .. => true
  | _ => false

@[simp] theorem isAbort_abort : isAbort (.abortMultipartUpload key uploadId) = true := rfl

@[simp] theorem isAbort_create {storageClass : Option String} :
    isAbort (.createMultipartUpload key metadata storageClass) = false := rfl

@[simp] theorem isAbort_complete {parts : List Part} :
    isAbort (.completeMultipartUpload key uploadId parts) = false := rfl

@[simp] theorem isCompletion_complete {parts : List Part} :
    isCompletion (.completeMultipartUpload key uploadId parts) = true := rfl

@[simp] theorem isCompletion_create {storageClass : Option String} :
    isCompletion (.createMultipartUpload key metadata storageClass) = false := rfl

theorem Copied.countP {ranges : List CopyRange} {calls : Trace Answer}
    (h : Copied key source uploadId ranges calls) (kind : Op → Bool)
    (hkind : ∀ range, kind (.uploadPartCopy key source range uploadId) = false) :
    calls.countP (fun c => kind c.1) = 0 := by
  rw [List.countP_eq_zero]
  intro c hc
  have hop : c.1 ∈ ranges.map (.uploadPartCopy key source · uploadId) :=
    h.requested ▸ List.mem_map_of_mem hc
  obtain ⟨range, -, hrange⟩ := List.mem_map.mp hop
  rw [← hrange, hkind]
  exact Bool.false_ne_true

theorem not_isAbort_of_failure {c : (o : Op) × Answer o} {e : Error} (h : failure c = some e) :
    isAbort c.1 = false := by
  rcases c with ⟨o, a⟩
  cases o <;> first | rfl | cases h

theorem AbortedOnce.countP {e : Error} {r : Except Error Unit}
    (h : AbortedOnce storage key source metadata trace e r) :
    trace.countP (fun c => isAbort c.1) = 1 := by
  obtain ⟨uploadId, before, answer, ⟨ranges, calls, c, rfl, hcalls, hc⟩, rfl, -⟩ := h
  have hzero := hcalls.countP isAbort fun _ => rfl
  simp only [List.countP_append, hzero, List.countP_singleton, not_isAbort_of_failure hc, isAbort_abort,
    isAbort_create, Bool.false_eq_true, if_true, if_false]

theorem AbortedOnce.failure_eq {e e' : Error} {r : Except Error Unit}
    (h : AbortedOnce storage key source metadata trace e r) {c : (o : Op) × Answer o}
    (hc : c ∈ trace) (hfail : failure c = some e') : e' = e := by
  obtain ⟨uploadId, before, answer, ⟨ranges, calls, c', rfl, hcalls, hc'⟩, rfl, -⟩ := h
  simp only [List.mem_append, List.mem_singleton] at hc
  rcases hc with ((rfl | hc) | rfl) | rfl
  · cases hfail
  · rw [hcalls.succeed c hc] at hfail
    cases hfail
  · exact Option.some.inj (hfail.symm.trans hc')
  · cases hfail

theorem CompletedOnce.countP {size : Nat} {r : Except Error Unit}
    (h : CompletedOnce storage key source metadata size trace r) :
    trace.countP (fun c => isCompletion c.1) = 1 ∧ trace.countP (fun c => isAbort c.1) = 0 := by
  obtain ⟨uploadId, calls, hcalls, rfl, -⟩ := h
  have hcompletions := hcalls.countP isCompletion fun _ => rfl
  have haborts := hcalls.countP isAbort fun _ => rfl
  constructor
  · simp only [List.countP_append, hcompletions, List.countP_singleton, isCompletion_complete,
      isCompletion_create, Bool.false_eq_true, if_true, if_false]
  · simp only [List.countP_append, haborts, List.countP_singleton, isAbort_complete, isAbort_create,
      Bool.false_eq_true, if_false]

theorem CompletedOnce.failure_eq {size : Nat} {r : Except Error Unit}
    (h : CompletedOnce storage key source metadata size trace r) {c : (o : Op) × Answer o}
    (hc : c ∈ trace) : failure c = none := by
  obtain ⟨uploadId, calls, hcalls, rfl, -⟩ := h
  simp only [List.mem_append, List.mem_singleton] at hc
  rcases hc with (rfl | hc) | rfl
  · rfl
  · exact hcalls.succeed c hc
  · rfl

/-- The requests of a copy whose first part fails. -/
def firstPartFails (storage : S3EncryptedColdStorage) (key : String) (source : CopySource)
    (metadata : List (String × String)) (uploadId : String) (range : CopyRange) (e : Error)
    (answer : Except Error Unit) : Trace Answer :=
  [⟨.createMultipartUpload key metadata storage.archiveStorageClass, .ok (some uploadId)⟩,
    ⟨.uploadPartCopy key source range uploadId, .error e⟩, ⟨.abortMultipartUpload key uploadId, answer⟩]

theorem traces_firstPartFails (storage : S3EncryptedColdStorage) (key : String) (source : CopySource)
    (metadata : List (String × String)) (uploadId : String) {size : Nat} {range : CopyRange}
    {rest : List CopyRange} (hr : copyRanges size (partSize size) = range :: rest) (e : Error)
    (answer : Except Error Unit) :
    Traces (multipartArchiveCopy storage key source size metadata)
      (firstPartFails storage key source metadata uploadId range e answer)
      (match answer with
        | .ok () => .error e
        | .error e' => .error e') := by
  unfold multipartArchiveCopy copyAndComplete
  rw [hr]
  apply Relation.ReflTransGen.head (Prog.Step.call (a := Except.ok (some uploadId)) rfl)
  apply Relation.ReflTransGen.head (Prog.Step.call (a := Except.error e) rfl)
  apply Relation.ReflTransGen.head (Prog.Step.call (a := answer) rfl)
  cases answer
  all_goals exact .refl

theorem exists_first_range (size : Nat) (hsize : 0 < size) :
    ∃ range rest, copyRanges size (partSize size) = range :: rest := by
  cases hr : copyRanges size (partSize size) with
  | nil =>
    have hlen := (lt_length_copyRanges (partSize_pos : 0 < partSize size) 0).mpr
      (show 0 * partSize size < size by omega)
    rw [hr] at hlen
    cases hlen
  | cons range rest => exact ⟨range, rest, rfl⟩

theorem glacier_copy {size : Nat} (hlow : singleCopyLimit < size) (hhigh : size ≤ 5 * 1024 ^ 4) :
    TilesObject size (copyRanges size (partSize size)) ∧
    ∀ (storage : S3EncryptedColdStorage) (key : String) (source : CopySource)
      (metadata : List (String × String)) (trace : Trace Answer) (r : Except Error Unit),
      Traces (multipartArchiveCopy storage key source size metadata) trace r →
      (∀ c ∈ trace, ∀ e, failure c = some e →
        AbortedOnce storage key source metadata trace e r ∧
          trace.countP (fun c => isAbort c.1) = 1) ∧
      ((∀ c ∈ trace, failure c = none) → ¬ NotCreated storage key metadata trace →
        CompletedOnce storage key source metadata size trace r ∧
          trace.countP (fun c => isCompletion c.1) = 1 ∧
          trace.countP (fun c => isAbort c.1) = 0) := by
  refine ⟨copyRanges_tile hlow hhigh, ?_⟩
  intro storage key source metadata trace r ht
  have hrecords := multipartArchiveCopy_records storage key source size metadata
  rcases r with e | done
  · rcases hrecords.of_raises ht with ⟨answer, rfl, hanswer⟩ | ⟨e', haborted⟩
    · constructor
      · intro c hc e' hfail
        obtain rfl := List.mem_singleton.mp hc
        cases hfail
      · intro _ hcreated
        exact absurd ⟨answer, rfl, hanswer⟩ hcreated
    · constructor
      · intro c hc e'' hfail
        obtain rfl := haborted.failure_eq hc hfail
        exact ⟨haborted, haborted.countP⟩
      · intro hnone
        obtain ⟨uploadId, before, answer, ⟨ranges, calls, c, rfl, -, hc⟩, rfl, -⟩ := haborted
        have hmem := hnone c (by simp)
        rw [hc] at hmem
        cases hmem
  · have hcompleted := hrecords.of_returns ht
    constructor
    · intro c hc e hfail
      rw [hcompleted.failure_eq hc] at hfail
      cases hfail
    · intro _ _
      exact ⟨hcompleted, hcompleted.countP⟩

def glacierStorage : S3EncryptedColdStorage where
  bucket := "cold"
  key := []
  createBucketIfMissing := false
  providerName := "s3"
  archiveStorageClass := some "GLACIER"
  restoreDays := 1

def coldSource : CopySource := { bucket := "cold", key := "mnema/a.mnema", versionId := none }

/-- A copy of the least size, whose first part fails. -/
theorem glacier_copy_smallest :
    let size := 5 * 1024 ^ 3 + 1
    TilesObject size (copyRanges size (partSize size)) ∧
    ∃ range rest, copyRanges size (partSize size) = range :: rest ∧
      let trace := firstPartFails glacierStorage "mnema/a.mnema" coldSource [] "1" range (.client "SlowDown") (.ok ())
      Traces (multipartArchiveCopy glacierStorage "mnema/a.mnema" coldSource size []) trace
        (.error (.client "SlowDown")) ∧
      AbortedOnce glacierStorage "mnema/a.mnema" coldSource [] trace (.client "SlowDown")
        (.error (.client "SlowDown")) ∧
      trace.countP (fun c => isAbort c.1) = 1 := by
  intro size
  have hlow : singleCopyLimit < size := by
    rw [singleCopyLimit_eq]
    omega
  obtain ⟨htiles, hcopies⟩ := glacier_copy hlow (by omega)
  obtain ⟨range, rest, hr⟩ := exists_first_range size (by omega)
  have ht := traces_firstPartFails glacierStorage "mnema/a.mnema" coldSource [] "1" hr (.client "SlowDown") (.ok ())
  have haborted := (hcopies _ _ _ _ _ _ ht).1
    ⟨.uploadPartCopy "mnema/a.mnema" coldSource range "1", .error (.client "SlowDown")⟩
    (.tail _ (.head _)) (.client "SlowDown") rfl
  exact ⟨htiles, range, rest, hr, ht, haborted⟩

/-- Where aborting fails as well, its exception takes the place of the one that led to it. -/
theorem abort_error_replaces :
    ¬ ∀ (storage : S3EncryptedColdStorage) (key : String) (source : CopySource) (size : Nat)
      (metadata : List (String × String)) (trace : Trace Answer) (r : Except Error Unit),
      singleCopyLimit < size → size ≤ 5 * 1024 ^ 4 →
      Traces (multipartArchiveCopy storage key source size metadata) trace r →
      ∀ c ∈ trace, ∀ e, failure c = some e → r = .error e := by
  intro h
  have hlow : singleCopyLimit < 5368709121 := by
    rw [singleCopyLimit_eq]
    omega
  obtain ⟨range, rest, hr⟩ := exists_first_range 5368709121 (by omega)
  have ht := traces_firstPartFails glacierStorage "mnema/a.mnema" coldSource [] "1" hr (.client "SlowDown")
    (.error (.client "NoSuchUpload"))
  have hh := h glacierStorage "mnema/a.mnema" coldSource _ [] _ _ hlow (by omega) ht
    ⟨.uploadPartCopy "mnema/a.mnema" coldSource range "1", .error (.client "SlowDown")⟩
    (.tail _ (.head _)) (.client "SlowDown") rfl
  have hcodes : "NoSuchUpload" = "SlowDown" := Error.client.inj (Except.error.inj hh)
  exact absurd hcodes (by decide)

end Mnema.S3
