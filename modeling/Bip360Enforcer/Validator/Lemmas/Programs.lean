import Bip360Enforcer.Validator.Dbs

/-!
# Rules for the programs of the databases
-/

namespace Bip360Enforcer.Validator

open Program (wp)

variable {ε ε' α β υ : Type}

/-! ## Stores -/

/-- The one store came out of the other without events being sent or a transaction being opened. -/
structure Quiet (s t : Store) : Prop where
  events : t.events = s.events
  sent : t.sent = s.sent
  log : t.log = s.log
  faults : ∃ k, ∀ n, t.faults n = s.faults (n + k)

namespace Quiet

variable {s t u : Store}

theorem refl (s : Store) : Quiet s s := ⟨rfl, rfl, rfl, 0, fun _ => rfl⟩

theorem trans (h : Quiet s t) (h' : Quiet t u) : Quiet s u := by
  obtain ⟨k, hk⟩ := h.faults
  obtain ⟨k', hk'⟩ := h'.faults
  exact ⟨h'.events.trans h.events, h'.sent.trans h.sent, h'.log.trans h.log, k' + k, fun n => by
    rw [hk', hk, Nat.add_assoc]⟩

theorem next (s : Store) : Quiet s s.next := ⟨rfl, rfl, rfl, 1, fun _ => rfl⟩

theorem setDbs (h : Quiet s t) (dbs : Dbs) : Quiet s (t.setDbs dbs) :=
  ⟨h.events, h.sent, h.log, h.faults⟩

end Quiet

/-- Some operation fails, if it comes to it before an event is sent or a transaction opened. -/
def Faulty (s : Store) : Prop := ∃ n, s.faults n (s.sent.getD false) = true

theorem Faulty.of_quiet {s t : Store} (h : Quiet s t) (hf : Faulty t) : Faulty s := by
  obtain ⟨n, hn⟩ := hf
  obtain ⟨k, hk⟩ := h.faults
  exact ⟨n + k, by rw [← hk, ← h.sent]; exact hn⟩

@[simp] theorem next_dbs (s : Store) : s.next.dbs = s.dbs := rfl

@[simp] theorem setDbs_dbs (s : Store) (dbs : Dbs) : (s.setDbs dbs).dbs = dbs := rfl

/-! ## Operations that may fail -/

theorem wp_access [FromDb ε] {post : Unit → Store → Prop} {failed : ε → Store → Prop} {s : Store} :
    wp access post failed s ↔
      (s.fails = true → failed (fromDb .io) s.next) ∧ (¬ s.fails = true → post () s.next) := by
  unfold wp access
  by_cases hs : s.fails = true <;> simp [hs]

theorem wp_read [FromDb ε] {f : Dbs → α} {post : α → Store → Prop} {failed : ε → Store → Prop}
    {s : Store} : wp (read f) post failed s ↔
      (s.fails = true → failed (fromDb .io) s.next) ∧ (¬ s.fails = true → post (f s.dbs) s.next) := by
  unfold read
  rw [Program.wp_bind, wp_access]
  rfl

/-- A read of a record changes nothing. -/
theorem get_wp [FromDb ε] {db : Dbs → HashDb υ} {key : BlockHash} {post : υ → Store → Prop}
    {failed : ε → Store → Prop} {s : Store} (hpost : ∀ v, post v s.next)
    (hfailed : ∀ e, failed e s.next) : wp (get db key) post failed s := by
  unfold get tryGet require
  rw [Program.wp_bind, wp_read]
  refine ⟨fun _ => hfailed _, fun _ => ?_⟩
  cases (db s.dbs).lookup key with
  | none => exact hfailed _
  | some v => exact hpost v

/-! ## Specifications -/

/-- Run on the databases `dbs`, a program that sends no events ends in `post`, or fails in `failed`,
or an operation has failed, with an error in `fault`. -/
def Spec (x : Db ε α) (dbs : Dbs) (post : α → Dbs → Prop) (failed : ε → Dbs → Prop)
    (fault : ε → Prop) : Prop :=
  ∀ s : Store, s.dbs = dbs → wp x (fun a t => Quiet s t ∧ post a t.dbs)
    (fun e t => Quiet s t ∧ (failed e t.dbs ∨ (Faulty s ∧ fault e))) s

namespace Spec

variable {dbs : Dbs} {post : α → Dbs → Prop} {failed : ε → Dbs → Prop} {fault : ε → Prop}

theorem mono {x : Db ε α} {post' : α → Dbs → Prop} {failed' : ε → Dbs → Prop} {fault' : ε → Prop}
    (h : Spec x dbs post failed fault) (hpost : ∀ a d, post a d → post' a d)
    (hfailed : ∀ e d, failed e d → failed' e d) (hfault : ∀ e, fault e → fault' e) :
    Spec x dbs post' failed' fault' := fun s hs =>
  (h s hs).mono (fun a _ ht => ⟨ht.1, hpost a _ ht.2⟩)
    fun e _ ht => ⟨ht.1, ht.2.imp (hfailed e _) fun hf => ⟨hf.1, hfault e hf.2⟩⟩

theorem pure {a : α} (h : post a dbs) : Spec (pure a) dbs post failed fault := by
  rintro s rfl
  exact ⟨.refl s, h⟩

theorem fail {e : ε} (h : failed e dbs) : Spec (Program.fail e) dbs post failed fault := by
  rintro s rfl
  exact ⟨.refl s, .inl h⟩

theorem bind {x : Db ε β} {f : β → Db ε α}
    (h : Spec x dbs (fun b d => Spec (f b) d post failed fault) failed fault) :
    Spec (x >>= f) dbs post failed fault := by
  intro s hs
  rw [Program.wp_bind]
  refine (h s hs).mono ?_ fun _ _ ht => ht
  rintro b t ⟨hquiet, hf⟩
  refine (hf t rfl).mono (fun a u hu => ⟨hquiet.trans hu.1, hu.2⟩) ?_
  rintro e u ⟨hquiet', he⟩
  exact ⟨hquiet.trans hquiet', he.imp_right fun hf => ⟨hf.1.of_quiet hquiet, hf.2⟩⟩

theorem ofExcept {r : Except ε α} (hok : ∀ a, r = .ok a → post a dbs)
    (herror : ∀ e, r = .error e → failed e dbs) :
    Spec (Program.ofExcept r) dbs post failed fault := by
  rintro s rfl
  cases r with
  | ok a => exact ⟨.refl s, hok a rfl⟩
  | error e => exact ⟨.refl s, .inl (herror e rfl)⟩

theorem mapError {f : ε' → ε} {x : Db ε' α}
    (h : Spec x dbs post (fun e => failed (f e)) fun e => fault (f e)) :
    Spec (Program.mapError f x) dbs post failed fault := fun s hs => Program.wp_mapError.mpr (h s hs)

theorem ite {p : Prop} [Decidable p] {x y : Db ε α} (hx : p → Spec x dbs post failed fault)
    (hy : ¬ p → Spec y dbs post failed fault) :
    Spec (if p then x else y) dbs post failed fault := by
  split
  · exact hx ‹_›
  · exact hy ‹_›

theorem forM {f : α → Db ε Unit} (inv : List α → Dbs → Prop) {xs : List α}
    (start : inv [] dbs)
    (step : ∀ done x rest d, done ++ x :: rest = xs → inv done d →
      Spec (f x) d (fun _ => inv (done ++ [x])) failed fault) :
    Spec (xs.forM f) dbs (fun _ => inv xs) failed fault := by
  intro s hs
  have hstart : Quiet s s ∧ inv [] s.dbs := ⟨.refl s, hs ▸ start⟩
  refine Program.wp_forM (fun done t => Quiet s t ∧ inv done t.dbs) hstart ?_
  rintro done x rest t hxs ⟨hquiet, hinv⟩
  refine (step done x rest t.dbs hxs hinv t rfl).mono (fun _ u hu => ⟨hquiet.trans hu.1, hu.2⟩) ?_
  rintro e u ⟨hquiet', he⟩
  exact ⟨hquiet.trans hquiet', he.imp_right fun hf => ⟨hf.1.of_quiet hquiet, hf.2⟩⟩

/-! ## Operations -/

section

variable [FromDb ε]

theorem access {post : Unit → Dbs → Prop} (hfault : fault (fromDb .io)) (h : post () dbs) :
    Spec access dbs post failed fault := by
  rintro s rfl
  rw [wp_access]
  exact ⟨fun hs => ⟨.next s, .inr ⟨⟨0, hs⟩, hfault⟩⟩, fun _ => ⟨.next s, h⟩⟩

theorem read {f : Dbs → α} (hfault : fault (fromDb .io)) (h : post (f dbs) dbs) :
    Spec (read f) dbs post failed fault := by
  refine bind (access hfault ?_)
  rintro s rfl
  exact ⟨.refl s, h⟩

theorem write {f : Dbs → Dbs} {post : Unit → Dbs → Prop} (hfault : fault (fromDb .io))
    (h : post () (f dbs)) : Spec (write f) dbs post failed fault := by
  refine bind (access hfault ?_)
  rintro s rfl
  exact ⟨(Quiet.refl s).setDbs _, h⟩

theorem tryGet {db : Dbs → HashDb υ} {key : BlockHash} {post : Option υ → Dbs → Prop}
    (hfault : fault (fromDb .io)) (h : post ((db dbs).lookup key) dbs) :
    Spec (tryGet db key) dbs post failed fault := read hfault h

theorem require {f : Dbs → Option α} (hfault : fault (fromDb .io))
    (hsome : ∀ a, f dbs = some a → post a dbs)
    (hnone : f dbs = none → failed (fromDb .missingValue) dbs) :
    Spec (require (Validator.read f)) dbs post failed fault := by
  refine bind (read hfault ?_)
  cases hf : f dbs with
  | some a => exact pure (hsome a hf)
  | none => exact fail (hnone hf)

theorem get {db : Dbs → HashDb υ} {key : BlockHash} {post : υ → Dbs → Prop}
    (hfault : fault (fromDb .io)) (hsome : ∀ v, (db dbs).lookup key = some v → post v dbs)
    (hnone : (db dbs).lookup key = none → failed (fromDb .missingValue) dbs) :
    Spec (get db key) dbs post failed fault := require hfault hsome hnone

end

/-! ## Use -/

theorem ok {x : Db ε α} {s t : Store} {a : α} (h : Spec x s.dbs post failed fault)
    (hx : x s = (.ok a, t)) : Quiet s t ∧ post a t.dbs := (h s rfl).ok hx

theorem error {x : Db ε α} {s t : Store} {e : ε} (h : Spec x s.dbs post failed fault)
    (hx : x s = (.error e, t)) : Quiet s t ∧ (failed e t.dbs ∨ (Faulty s ∧ fault e)) :=
  (h s rfl).error hx

/-- Without faults, a program that cannot fail otherwise returns. -/
theorem returns {x : Db ε α} {s : Store} (h : Spec x s.dbs post (fun _ _ => False) fault)
    (hs : ¬ Faulty s) : ∃ a t, x s = (.ok a, t) ∧ Quiet s t ∧ post a t.dbs := by
  have hx := h s rfl
  rw [wp] at hx
  split at hx
  · rename_i a t hxs
    exact ⟨a, t, hxs, hx⟩
  · rcases hx.2 with hfalse | hfaulty
    · exact hfalse.elim
    · exact absurd hfaulty.1 hs

end Spec

/-! ## Transactions -/

/-- What a write transaction comes to: its body, from the store in which it starts. -/
theorem wp_transaction [FromDb ε] {body : Db ε α} {post : α → Store → Prop}
    {failed : ε → Store → Prop} {s : Store} (hfault : s.fails = true → failed (fromDb .io) s.next)
    (hbody : wp body (fun a t => post a (t.finish t.dbs)) (fun e t => failed e (t.finish s.dbs))
      s.next.begin) :
    wp (transaction body) post failed s := by
  unfold wp transaction access
  by_cases hs : s.fails = true
  · simp only [if_pos hs]
    exact hfault hs
  · simp only [if_neg hs]
    rw [wp] at hbody
    cases hx : body s.next.begin with
    | mk r t =>
        rw [hx] at hbody
        cases r with
        | ok a => exact hbody
        | error e => exact hbody

end Bip360Enforcer.Validator
