import Mnema.Host

/-! Rules for the host: what a program may assume of the files and of the open rows after
each operation, whatever happened to the source and the clock in between. -/

namespace Mnema

/-- The files of the host, the one that is open for writing, and the open rows. -/
structure World.Has (w : World Host) (s : Store Path Bytes) (m : Option Path) (d : Db) : Prop where
  files : w.ext.files = s
  writing : w.ext.writing = m
  txn : w.txn = d

theorem World.has_self (w : World Host) : w.Has w.ext.files w.ext.writing w.txn := ⟨rfl, rfl, rfl⟩

@[simp] theorem World.ext_setTxn (w : World Host) (d : Db) : (w.setTxn d).ext = w.ext := rfl

/-- Where the bytes of an upload arrive. -/
def Settings.uploadFile (settings : Settings) (uploadId : String) : Path :=
  settings.fileProviderUploadRoot.child (uploadId ++ ".upload")

/-- Whether `upload_path` names a file for the upload. -/
def Settings.admits (settings : Settings) (uploadId : String) : Bool :=
  validUploadId uploadId && settings.activeRoot.isPrefixOf settings.fileProviderUploadRoot

section Rules

variable {α β : Type} {c : Crypto} {w : World Host} {s s' : Store Path Bytes} {m m' : Option Path}
  {d d' : Db} {E : PyError → World Host → Prop} {P : Prop}

/-- On the host, `p` ends with `Q` or raises with `E`. -/
abbrev Performs (c : Crypto) (p : Flow α) (Q : α → World Host → Prop) (E : PyError → World Host → Prop)
    (w : World Host) : Prop :=
  p.wp (fun _ _ => True) (World.env (Host.env c)) Q E w

theorem performs_bind {p : Flow α} {f : α → Flow β} {Q : β → World Host → Prop} :
    Performs c (p >>= f) Q E w ↔ Performs c p (fun a w' => Performs c (f a) Q E w') E w :=
  Prog.wp_bind _ _

theorem performs_answer {o : DbOp} {a : o.Res} {w' : World Host} {Q : o.Res → World Host → Prop}
    (h : w.dbStep o = (.ok a, w')) : Performs c (db o) Q E w ↔ Q a w' :=
  (wp_db_ok h).trans (iff_of_eq (true_and _))

/-- A call outside whose answer depends on the files alone. -/
theorem performs_ext {o : ExtOp} {a : o.Res} {Q : o.Res → World Host → Prop} (hw : w.Has s m d)
    (ha : ∀ h : Host, h.files = s → h.writing = m →
      ∃ h', h.answer c o = (.ok a, h') ∧ h'.files = s' ∧ h'.writing = m')
    (hnext : ∀ w', w'.Has s' m' d → (Q a w' ↔ P)) : Performs c (ext o) Q E w ↔ P := by
  have hall : ∀ r x, Host.env c w.ext o r x → r = .ok a ∧
      (Q a (w.answered o r x) ↔ P) := by
    rintro r x ⟨h, hd, he⟩
    obtain ⟨h', hans, hs, hm⟩ := ha h (hd.files.trans hw.files) (hd.writing.trans hw.writing)
    rw [hans] at he
    obtain ⟨rfl, rfl⟩ := Prod.mk.inj he
    exact ⟨rfl, hnext _ ⟨hs, hm, hw.txn⟩⟩
  have hself := Host.honest_answer c w.ext o
  have henv : Host.env c w.ext o (w.ext.answer c o).1 (w.ext.answer c o).2 :=
    ⟨w.ext, .refl _, rfl⟩
  refine wp_ext.trans ⟨fun h => ?_, fun h => ⟨trivial, fun b x hx _ => ?_, fun e x hx _ => ?_⟩⟩
  · obtain ⟨hok, hq⟩ := hall _ _ henv
    rw [hok] at hself henv hq
    exact hq.mp (h.2.1 a _ henv hself)
  · obtain ⟨hok, hq⟩ := hall _ _ hx
    rw [Except.ok.inj hok] at hq ⊢
    exact hq.mpr h
  · exact absurd (hall _ _ hx).1 (by simp)

theorem performs_call {o : ExtOp} {a : o.Res} {f : o.Res → Flow β} {Q : β → World Host → Prop}
    (hw : w.Has s m d)
    (ha : ∀ h : Host, h.files = s → h.writing = m →
      ∃ h', h.answer c o = (.ok a, h') ∧ h'.files = s' ∧ h'.writing = m')
    (hnext : ∀ w', w'.Has s' m' d → (Performs c (f a) Q E w' ↔ P)) :
    Performs c (ext o >>= f) Q E w ↔ P :=
  performs_bind.trans (performs_ext hw ha hnext)

/-- The same for a call that only reads the files. -/
theorem performs_look {o : ExtOp} {a : o.Res} {f : o.Res → Flow β} {Q : β → World Host → Prop}
    (hw : w.Has s m d) (ha : ∀ h : Host, h.files = s → h.answer c o = (.ok a, h))
    (hnext : ∀ w', w'.Has s m d → (Performs c (f a) Q E w' ↔ P)) :
    Performs c (ext o >>= f) Q E w ↔ P :=
  performs_call hw (fun h hs hm => ⟨h, ha h hs, hs, hm⟩) hnext

theorem performs_fileSize {path : Path} {b : Bytes} {f : Nat → Flow β} {Q : β → World Host → Prop}
    (hw : w.Has s m d) (hb : s path = some b)
    (hnext : ∀ w', w'.Has s m d → (Performs c (f b.length) Q E w' ↔ P)) :
    Performs c (ext (.fileSize path) >>= f) Q E w ↔ P :=
  performs_look hw (fun h hs => by simp [Host.answer, Host.read, hs, hb, Except.map]) hnext

theorem performs_sha256File {path : Path} {b : Bytes} {f : Digest → Flow β}
    {Q : β → World Host → Prop} (hw : w.Has s m d) (hb : s path = some b)
    (hnext : ∀ w', w'.Has s m d → (Performs c (f (c.sha256 b)) Q E w' ↔ P)) :
    Performs c (ext (.sha256File path) >>= f) Q E w ↔ P :=
  performs_look hw (fun h hs => by simp [Host.answer, Host.read, hs, hb, Except.map]) hnext

theorem performs_replace {source target : Path} {b : Bytes} {Q : Unit → World Host → Prop}
    (hw : w.Has s m d) (hb : s source = some b)
    (hnext : ∀ w', w'.Has ((s.erase source).put target b) m d → (Q () w' ↔ P)) :
    Performs c (ext (.replace source target)) Q E w ↔ P := by
  refine performs_ext (o := .replace source target) hw (fun h hs hm => ?_) hnext
  exact ⟨{ h with files := (h.files.erase source).put target b },
    by simp [Host.answer, Host.replace, hs, hb], by rw [hs], hm⟩

/-- `unlink(missing_ok=True)`. -/
theorem performs_unlink {path : Path} {Q : Unit → World Host → Prop} (hw : w.Has s m d)
    (hnext : ∀ w', w'.Has (s.erase path) m d → (Q () w' ↔ P)) :
    Performs c (ext (.unlink path true)) Q E w ↔ P := by
  refine performs_ext (o := .unlink path true) hw (fun h hs hm => ?_) hnext
  refine ⟨{ h with files := h.files.erase path }, ?_, by rw [hs], hm⟩
  cases hp : h.files path with
  | some b => simp [Host.answer, Host.unlink, hp]
  | none => simp [Host.answer, Host.unlink, hp, Store.erase_of_none hp]

/-- An operation on the rows whose answer depends on the open rows alone. -/
theorem performs_db {o : DbOp} {a : o.Res} {f : o.Res → Flow β} {Q : β → World Host → Prop}
    (hw : w.Has s m d)
    (ha : ∀ w : World Host, w.txn = d →
      (w.dbStep o).1 = .ok a ∧ (w.dbStep o).2.txn = d' ∧ (w.dbStep o).2.ext = w.ext)
    (hnext : ∀ w', w'.Has s m d' → (Performs c (f a) Q E w' ↔ P)) :
    Performs c (db o >>= f) Q E w ↔ P := by
  obtain ⟨hok, htxn, hext⟩ := ha w hw.txn
  refine performs_bind.trans ((wp_db_ok (Prod.ext hok rfl)).trans ?_)
  rw [true_and]
  exact hnext _ ⟨hext ▸ hw.files, hext ▸ hw.writing, htxn⟩

theorem performs_query {o : DbOp} {a : o.Res} {f : o.Res → Flow β} {Q : β → World Host → Prop}
    (hw : w.Has s m d) (ha : ∀ w : World Host, w.txn = d → w.dbStep o = (.ok a, w))
    (hnext : ∀ w', w'.Has s m d → (Performs c (f a) Q E w' ↔ P)) :
    Performs c (db o >>= f) Q E w ↔ P := by
  refine performs_db hw (fun w hd => ?_) hnext
  rw [ha w hd]
  exact ⟨rfl, hd, rfl⟩

theorem performs_db_error {o : DbOp} {e : PyError} {f : o.Res → Flow β} {Q : β → World Host → Prop}
    (hw : w.Has s m d) (ha : ∀ w : World Host, w.txn = d → w.dbStep o = (.error e, w))
    (hnext : ∀ w', w'.Has s m d → (E e w' ↔ P)) : Performs c (db o >>= f) Q E w ↔ P := by
  have hstep := ha w hw.txn
  refine performs_bind.trans (wp_db.trans ?_)
  rw [hstep]
  simpa using hnext w hw

/-- The clock shows any time. -/
theorem performs_utcnow {f : Time → Flow β} {Q : β → World Host → Prop} (hw : w.Has s m d)
    (hnext : ∀ now w', w'.Has s m d → (Performs c (f now) Q E w' ↔ P)) :
    Performs c (ext .utcnow >>= f) Q E w ↔ P := by
  refine performs_bind.trans (wp_ext.trans ⟨fun h => ?_, fun h => ⟨trivial, ?_, ?_⟩⟩)
  · have hself := h.2.1 w.ext.now w.ext ⟨w.ext, .refl _, rfl⟩ trivial
    have hw' : (w.answered .utcnow (.ok w.ext.now) w.ext).Has s m d :=
      ⟨hw.files, hw.writing, hw.txn⟩
    exact (hnext _ _ hw').mp hself
  · rintro now x ⟨h', hd, he⟩ _
    obtain ⟨-, rfl⟩ := Prod.mk.inj he
    have hw' : (w.answered .utcnow (.ok now) x).Has s m d :=
      ⟨hd.files.trans hw.files, hd.writing.trans hw.writing, hw.txn⟩
    exact (hnext now _ hw').mpr h
  · rintro e x ⟨h', -, he⟩ _
    simp [Host.answer] at he

theorem performs_raiseIf {failed : Bool} {e : PyError} {f : Unit → Flow β} {Q : β → World Host → Prop}
    (hfail : failed = true → (E e w ↔ P)) (hnext : failed = false → (Performs c (f ()) Q E w ↔ P)) :
    Performs c (raiseIf failed e >>= f) Q E w ↔ P := by
  cases failed with
  | false => exact hnext rfl
  | true => exact hfail rfl

theorem performs_uploadPath {settings : Settings} {uploadId : String} {f : Path → Flow β}
    {Q : β → World Host → Prop} (hw : w.Has s m d)
    (hfail : settings.admits uploadId = false → ∀ text w', w'.Has s m d → (E (.value text) w' ↔ P))
    (hnext : settings.admits uploadId = true → ∀ w', w'.Has s m d →
      (Performs c (f (settings.uploadFile uploadId)) Q E w' ↔ P)) :
    Performs c (uploadPath settings uploadId >>= f) Q E w ↔ P := by
  refine performs_bind.trans ?_
  unfold uploadPath
  refine performs_raiseIf (fun hv => hfail ?_ _ w hw) fun hv => ?_
  · rw [Settings.admits, (Bool.not_eq_true' _).mp hv, Bool.false_and]
  replace hv := (Bool.not_eq_false' _).mp hv
  refine performs_look hw (fun h _ => rfl) fun w hw => ?_
  refine performs_look (o := .mkdir _) hw (fun h _ => rfl) fun w hw => ?_
  refine performs_look (o := .isBeneath _ _) hw (fun h _ => rfl) fun w hw => ?_
  refine performs_raiseIf (fun hb => hfail ?_ _ w hw) fun hb => hnext ?_ w hw
  · rw [Settings.admits, (Bool.not_eq_true' _).mp hb, Bool.and_false]
  · rw [Settings.admits, hv, (Bool.not_eq_false' _).mp hb, Bool.and_self]

end Rules

end Mnema
