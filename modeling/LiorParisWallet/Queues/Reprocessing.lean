import Mathlib.Data.Set.Card
import Mathlib.Order.Interval.Finset.Nat
import LiorParisWallet.Queues.Pipeline

/-!
# Reprocessing

A notification that has failed for good is buried, and the job that buries it puts it back with the
count increased by one.  So the rounds of a notification can be numbered by the count that its data
carries, which the limit `MAX_DLQ_REPROCESS` bounds.
-/

namespace LiorParisWallet.Queues

open Async Jobs

/-- Every `add` succeeds. -/
abbrev Adds : State → Label Request Choice → Prop := Accepts fun _ => true

/-- The notification `n` is the job of round `c` for `n₀`: the rounds after the first are those of the
    jobs that the dead-letter jobs put back. -/
inductive Round (w : World) (n₀ : ℕ) : ℕ → ℕ → Prop where
  | first : Round w n₀ 0 n₀
  | again {c n k a n' : ℕ} {x : Entry (Option Attempt) DeadLetterData}
      {y : Entry (Option Attempt) JobData} : Round w n₀ c n →
      w.job .deadLetter k = some x → x.data.originalJobId = n →
      w.job .notifications n' = some y → y.origin = some ⟨.deadLetter, k, a⟩ → Round w n₀ (c + 1) n'

/-- Every attempt that the notification has was made, and `send` failed in each. -/
def AllFailed (w : World) (n : ℕ) : Prop :=
  ∀ a, 0 < a → a ≤ QueueName.notifications.maxAttempts →
    ∃ x ∈ w.sendings, x.attempt = some ⟨.notifications, n, a⟩ ∧ x.ok = false

/-- The call of `send` was made for the notification `n₀` in one of its rounds. -/
def OnBehalf (w : World) (n₀ : ℕ) (x : Sending) : Prop :=
  ∃ c n a, Round w n₀ c n ∧ x.attempt = some ⟨.notifications, n, a⟩

/-- The jobs that were put back for the notification. -/
def putBacks (w : World) (n₀ : ℕ) : Set ℕ := {n | ∃ c, Round w n₀ (c + 1) n}

/-- The positions of the calls of `send` that were made for the notification. -/
def sendingsFor (w : World) (n₀ : ℕ) : Set ℕ := {m | ∃ x, w.sendings[m]? = some x ∧ OnBehalf w n₀ x}

/-- The data of the original job, with the count of round `c`. -/
def JobData.inRound (data : JobData) : ℕ → JobData
  | 0 => data
  | c + 1 => { data with dlqMeta := some (c + 1) }

variable {allowed : State → Label Request Choice → Prop} {s s' : State} {w w' : World}
variable {c c' n n' n₀ : ℕ} {e₀ y : Entry (Option Attempt) JobData}

theorem dlqCount_inRound (hfirst : e₀.data.dlqMeta = none) (c : ℕ) :
    (e₀.data.inRound c).dlqMeta.getD 0 = c := by
  cases c with
  | zero =>
    show e₀.data.dlqMeta.getD 0 = 0
    rw [hfirst]
    rfl
  | succ c => rfl

@[simp] theorem inRound_eventName (data : JobData) (c : ℕ) :
    (data.inRound c).eventName = data.eventName := by
  cases c <;> rfl

@[simp] theorem inRound_payload (data : JobData) (c : ℕ) :
    (data.inRound c).payload = data.payload := by
  cases c <;> rfl

/-- In every round the job is the original one, but for the count. -/
theorem Round.job (h : Round w n₀ c n) (hinv : w.Inv) (hjob : w.job .notifications n₀ = some e₀)
    (hfirst : e₀.data.dlqMeta = none) : ∃ y, w.job .notifications n = some y ∧ y.name = e₀.name ∧
      y.data = e₀.data.inRound c ∧ c ≤ DeadLetterProcessor.maxDlqReprocess := by
  induction h with
  | first => exact ⟨e₀, hjob, rfl, rfl, Nat.zero_le _⟩
  | @again c n k a n' x y hround hx hid hy horigin ih =>
    obtain ⟨y₀, hy₀, hname, hdata, -⟩ := ih
    obtain ⟨y₀', hy₀', -, -, hrecords, hcount, -⟩ := hinv.records hx
    rw [hid] at hy₀'
    obtain rfl := Option.some.inj (hy₀.symm.trans hy₀')
    rw [hdata, dlqCount_inRound hfirst] at hcount
    cases (hinv.made .notifications n' y hy _ horigin).2 with
    | again hx' hlt hname' hdata' =>
      obtain rfl := Option.some.inj (hx.symm.trans hx')
      rw [hcount] at hlt hdata'
      refine ⟨y, hy, ?_, ?_, hlt⟩
      · rw [hname', hrecords.originalJobName, hname]
      · rw [hdata', hrecords.data, hdata]
        cases c <;> rfl

/-- A notification is buried once. -/
theorem World.Inv.buried_once (hinv : w.Inv) {k k' : ℕ} {x x' : Entry (Option Attempt) DeadLetterData}
    (hx : w.job .deadLetter k = some x) (hx' : w.job .deadLetter k' = some x')
    (h : x'.data.originalJobId = x.data.originalJobId) : k' = k := by
  obtain ⟨z, hz, -, ht, -⟩ := hinv.records hx
  obtain ⟨z', hz', -, ht', -⟩ := hinv.records hx'
  rw [h] at hz' ht'
  obtain rfl := Option.some.inj (hz.symm.trans hz')
  exact hinv.once .deadLetter k x hx _ ht (fun h => nomatch h) k' x' hx' ht'

/-- A round has one job. -/
theorem Round.unique (h : Round w n₀ c n) (hinv : w.Inv) (h' : Round w n₀ c n') : n' = n := by
  induction h generalizing n' with
  | first =>
    cases h'
    rfl
  | @again c n k a m x y hround hx hid hy horigin ih =>
    cases h' with
    | @again _ n₂ k' a' _ x' y' hround' hx' hid' hy' horigin' =>
      obtain rfl := ih hround'
      -- one dead-letter job buries the notification of the round before
      obtain rfl := hinv.buried_once hx hx' (hid'.trans hid.symm)
      obtain rfl := Option.some.inj (hx.symm.trans hx')
      -- and it has one attempt to put it back
      obtain ⟨hbegan, -⟩ := hinv.made .notifications m y hy _ horigin
      obtain ⟨hbegan', -⟩ := hinv.made .notifications n' y' hy' _ horigin'
      have hle : x.attemptsStarted ≤ 1 := (hinv.valid .deadLetter _ x hx).started_le
      have ha := hbegan.le hx
      have ha' := hbegan'.le hx
      obtain ⟨-, -, hpos, -⟩ := hbegan
      obtain ⟨-, -, hpos', -⟩ := hbegan'
      obtain rfl : a = a' := by
        simp only at hpos hpos'
        omega
      exact hinv.once .notifications m y hy _ horigin (fun h => nomatch h) n' y' hy' horigin'

theorem Round.count (h : Round w n₀ c n) (hinv : w.Inv) (hjob : w.job .notifications n₀ = some e₀)
    (hfirst : e₀.data.dlqMeta = none) :
    ((w.job .notifications n).map (·.data.dlqMeta.getD 0)).getD 0 = c := by
  obtain ⟨y, hy, -, hdata, -⟩ := h.job hinv hjob hfirst
  rw [hy, Option.map_some, Option.getD_some, hdata, dlqCount_inRound hfirst]

theorem Round.grows (h : Round w n₀ c n) (hg : Grows w w') : Round w' n₀ c n := by
  induction h with
  | first => exact .first
  | again _ hx hid hy horigin ih =>
    obtain ⟨x', hx', hlaterx⟩ := hg.jobs .deadLetter _ _ hx
    obtain ⟨y', hy', hlatery⟩ := hg.jobs .notifications _ _ hy
    refine .again ih hx' ?_ hy' (hlatery.origin.trans horigin)
    rwa [hlaterx.data]

/-! ## Bounds -/

/-- The job is put back three times at most. -/
theorem putBacks_le (hinv : w.Inv) (hjob : w.job .notifications n₀ = some e₀)
    (hfirst : e₀.data.dlqMeta = none) : (putBacks w n₀).encard ≤ 3 := by
  let count (n : ℕ) : ℕ := ((w.job .notifications n).map (·.data.dlqMeta.getD 0)).getD 0
  have hmaps : Set.MapsTo count (putBacks w n₀) ↑(Finset.Icc 1 3) := by
    rintro n ⟨c, hround⟩
    obtain ⟨y, -, -, -, hle⟩ := hround.job hinv hjob hfirst
    rw [show count n = c + 1 from hround.count hinv hjob hfirst]
    exact Finset.mem_coe.mpr (Finset.mem_Icc.mpr ⟨Nat.succ_pos c, hle⟩)
  have hinj : Set.InjOn count (putBacks w n₀) := by
    rintro n ⟨c, hround⟩ n' ⟨c', hround'⟩ heq
    rw [show count n = c + 1 from hround.count hinv hjob hfirst,
      show count n' = c' + 1 from hround'.count hinv hjob hfirst] at heq
    rw [heq] at hround
    exact hround'.unique hinv hround
  refine (Set.encard_le_encard_of_injOn hmaps hinj).trans ?_
  rw [Set.encard_coe_eq_coe_finsetCard]
  exact Nat.cast_le.mpr (by decide)

/-- An attempt calls `send` once at most. -/
theorem World.Inv.sending_unique (hinv : w.Inv) {m m' : ℕ} {x x' : Sending}
    (hx : w.sendings[m]? = some x) (hx' : w.sendings[m']? = some x') (h : x.attempt = x'.attempt) :
    m = m' := by
  have hm : (w.sendings.map (·.attempt))[m]? = some x.attempt := by rw [List.getElem?_map, hx]; rfl
  have hm' : (w.sendings.map (·.attempt))[m']? = some x.attempt := by
    rw [List.getElem?_map, hx', h]
    rfl
  have hlt := (List.getElem?_eq_some_iff.mp hm).1
  exact (List.getElem?_inj hlt hinv.distinct).mp (hm.trans hm'.symm)

/-- `send` is called for it twelve times at most. -/
theorem sendings_le (hinv : w.Inv) (hjob : w.job .notifications n₀ = some e₀)
    (hfirst : e₀.data.dlqMeta = none) :
    (sendingsFor w n₀).encard ≤ 12 := by
  let count (n : ℕ) : ℕ := ((w.job .notifications n).map (·.data.dlqMeta.getD 0)).getD 0
  -- the round and the number of the attempt in it
  let place (m : ℕ) : ℕ × ℕ := match w.sendings[m]?.bind (·.attempt) with
    | some t => (count t.job, t.number)
    | none => (0, 0)
  have hplace : ∀ {m : ℕ} {x : Sending} {c n a : ℕ}, w.sendings[m]? = some x → Round w n₀ c n →
      x.attempt = some ⟨.notifications, n, a⟩ → place m = (c, a) := by
    intro m x c n a hx hround ht
    simp only [place, hx, Option.bind_some, ht]
    rw [show count n = c from hround.count hinv hjob hfirst]
  have hmaps : Set.MapsTo place (sendingsFor w n₀)
      ↑(Finset.range 4 ×ˢ Finset.Icc 1 3) := by
    rintro m ⟨x, hx, c, n, a, hround, ht⟩
    rw [hplace hx hround ht]
    obtain ⟨y, hy, -, -, hle⟩ := hround.job hinv hjob hfirst
    obtain ⟨n', y', a', hy', ht', hpos, hlast, -⟩ := hinv.sendings x (List.mem_of_getElem? hx)
    obtain ⟨rfl, rfl⟩ := Attempt.mk.inj (Option.some.inj (ht'.symm.trans ht)) |>.2
    have hmax := (hinv.valid .notifications _ y' hy').started_le
    exact Finset.mem_coe.mpr (Finset.mem_product.mpr
      ⟨Finset.mem_range.mpr (Nat.lt_succ_of_le hle), Finset.mem_Icc.mpr ⟨hpos, hlast.trans hmax⟩⟩)
  have hinj : Set.InjOn place (sendingsFor w n₀) := by
    rintro m ⟨x, hx, c, n, a, hround, ht⟩ m' ⟨x', hx', c', n', a', hround', ht'⟩ heq
    rw [hplace hx hround ht, hplace hx' hround' ht'] at heq
    obtain ⟨rfl, rfl⟩ := Prod.mk.inj heq
    obtain rfl := hround.unique hinv hround'
    exact hinv.sending_unique hx hx' (ht.trans ht'.symm)
  refine (Set.encard_le_encard_of_injOn hmaps hinj).trans ?_
  rw [Set.encard_coe_eq_coe_finsetCard]
  exact Nat.cast_le.mpr (by decide)

/-! ## Burials -/

theorem Buried.allFailed (h : Buried w n) (hinv : w.Inv) : AllFailed w n := by
  obtain ⟨k, x, hx, rfl⟩ := h
  obtain ⟨y, hy, hfailed, -⟩ := hinv.records hx
  exact fun a hpos hle => hinv.outcome_failed hy hfailed hpos hle

theorem Reachable.not_refused (hr : Reachable Adds s) {x : Refusal} : x ∉ s.world.refusals :=
  fun hx => nomatch hr.refusals x hx

theorem AllFailed.began (h : AllFailed w n) (hinv : w.Inv) :
    Began w ⟨.notifications, n, QueueName.notifications.maxAttempts⟩ := by
  obtain ⟨x, hx, ht, -⟩ := h _ (by decide) (Nat.le_refl _)
  obtain ⟨n', y, a, hy, ht', hpos, hle, -⟩ := hinv.sendings x hx
  obtain ⟨rfl, rfl⟩ := Attempt.mk.inj (Option.some.inj (ht'.symm.trans ht)) |>.2
  exact ⟨y, hy, hpos, hle⟩

/-- A notification of which all attempts have failed has not succeeded. -/
theorem AllFailed.not_completed (h : AllFailed w n) (hinv : w.Inv)
    (hy : w.job .notifications n = some y) : y.status ≠ .completed := by
  intro hcompleted
  obtain ⟨hpos, hle, x, hx, ht, hok⟩ := hinv.outcome_completed hy hcompleted
  obtain ⟨x', hx', ht', hok'⟩ := h _ hpos hle
  obtain rfl := List.inj_on_of_nodup_map hinv.distinct hx hx' (ht.trans ht'.symm)
  exact nomatch hok.symm.trans hok'

/-- When all attempts have failed and the last of them has been dealt with, the notification is
    buried. -/
theorem Reachable.buried (hr : Reachable Adds s) (h : AllFailed s.world n)
    (hidle : ¬ Busy s ⟨.notifications, n, QueueName.notifications.maxAttempts⟩) :
    Buried s.world n := by
  rcases (hr.finished (h.began hr.inv) hidle).buried rfl with hlt | ⟨y, hy, hcompleted⟩ | hburied | hrefused
  · exact absurd hlt (Nat.lt_irrefl _)
  · exact absurd hcompleted (h.not_completed hr.inv hy)
  · exact hburied
  · obtain ⟨x, hx, -⟩ := hrefused
    exact absurd hx hr.not_refused

/-! ## The end of the chain -/

/-- The last round has ended: with a successful `send`, or with a dead-letter job that has reached the
    limit and is not put back. -/
def ChainEnds (w : World) (n₀ : ℕ) (data : JobData) : Prop :=
  ∃ c n y, Round w n₀ c n ∧ w.job .notifications n = some y ∧
    ((y.status = .completed ∧ Sent w n data.eventName data.payload) ∨
      (c = DeadLetterProcessor.maxDlqReprocess ∧ ∃ k x, w.job .deadLetter k = some x ∧
        Records x .notifications n y ∧ x.data.dlqCount = some DeadLetterProcessor.maxDlqReprocess ∧
        x.status = .completed ∧
        ∀ n' y' a, w.job .notifications n' = some y' → y'.origin ≠ some ⟨.deadLetter, k, a⟩))

theorem Sent.grows {eventName : String} {payload : Record} (h : Sent w n eventName payload)
    (hg : Grows w w') : Sent w' n eventName payload :=
  let ⟨x, hx, hrest⟩ := h
  ⟨x, hg.sendings.subset hx, hrest⟩

theorem World.Inv.not_putBack (hinv : w.Inv) {k : ℕ} {x : Entry (Option Attempt) DeadLetterData}
    (hx : w.job .deadLetter k = some x)
    (hcount : x.data.dlqCount = some DeadLetterProcessor.maxDlqReprocess) :
    ∀ n' y' a, w.job .notifications n' = some y' → y'.origin ≠ some ⟨.deadLetter, k, a⟩ := by
  intro n' y' a hy' ht
  cases (hinv.made .notifications n' y' hy' _ ht).2 with
  | again hx' hlt =>
    obtain rfl := Option.some.inj (hx.symm.trans hx')
    rw [hcount] at hlt
    exact absurd hlt (Nat.lt_irrefl _)

theorem ChainEnds.grows {data : JobData} (h : ChainEnds w n₀ data) (hg : Grows w w') (hinv : w'.Inv) :
    ChainEnds w' n₀ data := by
  obtain ⟨c, n, y, hround, hy, hend⟩ := h
  obtain ⟨y', hy', hlater⟩ := hg.jobs .notifications n y hy
  refine ⟨c, n, y', hround.grows hg, hy', ?_⟩
  rcases hend with ⟨hcompleted, hsent⟩ | ⟨hc, k, x, hx, hrecords, hcount, hcompleted, -⟩
  · obtain rfl := hlater.ended (.inl hcompleted)
    exact .inl ⟨hcompleted, hsent.grows hg⟩
  · obtain ⟨x', hx', hlaterx⟩ := hg.jobs .deadLetter k x hx
    obtain rfl := hlaterx.ended (.inl hcompleted)
    refine .inr ⟨hc, k, x', hx', ⟨hrecords.originalQueue, hrecords.originalJobId, ?_, ?_⟩, hcount,
      hcompleted, hinv.not_putBack hx' hcount⟩
    · exact hrecords.originalJobName.trans hlater.name.symm
    · exact hrecords.data.trans hlater.data.symm

/-! ## Fair runs -/

section Fair

variable {ρ : Behavior server Adds} {u v : ℕ}

/-- Calls are not passed over for ever, and neither are jobs that wait. -/
structure Diligent (ρ : Behavior server Adds) : Prop where
  fair : ρ.Fair
  takes : ∀ u q k e, (ρ.state u).world.job q k = some e → e.status = .waiting →
    ∃ v, u ≤ v ∧ ∃ e', (ρ.state v).world.job q k = some e' ∧ e'.status ≠ .waiting

/-- What a run keeps: the jobs, and which call has begun which attempt. -/
theorem Reachable.keeps (hr : Reachable allowed s) (h : server.Reaches allowed s s') :
    Grows s.world s'.world ∧ ∀ i t, s.world.holds i = some t → s'.world.holds i = some t := by
  induction h with
  | refl => exact ⟨.refl _, fun _ _ h => h⟩
  | @tail s₁ s₂ l hreach hal hn ih =>
    have hr₁ : Reachable allowed s₁ := Server.Reaches.trans hr hreach
    cases l with
    | start req =>
      cases hn
      exact ih
    | step j ω =>
      obtain ⟨c, o, next, r, world, hc, hp, hperf, rfl⟩ := Server.step_cases hn
      have hpre : Obliged j o s₁.world :=
        (hr₁.sound.tracks j (List.getElem?_eq_some_iff.mp hc).1).pre hr₁.sound.inv hc hp
      have heffect : Effect j s₁.world o r world := effect_of_perform (ω := ω) hperf
      have hacts := acts_of_effect hpre heffect
      refine ⟨ih.1.trans hacts.grows, fun i t ht => ?_⟩
      have ht₁ := ih.2 i t ht
      by_cases hij : i = j
      · subst hij
        cases heffect with
        | took _ _ => exact nomatch ht₁.symm.trans hpre
        | _ => exact ht₁
      · exact (hacts.holds i hij).trans ht₁

theorem Reachable.state (hr : Reachable Adds (ρ.state 0)) (u : ℕ) : Reachable Adds (ρ.state u) :=
  Server.Reaches.trans hr (ρ.reaches (Nat.zero_le u))

theorem Reachable.later (hr : Reachable Adds (ρ.state 0)) (huv : u ≤ v) :
    Grows (ρ.state u).world (ρ.state v).world :=
  ((hr.state u).keeps (ρ.reaches huv)).1

/-- Every attempt that has begun is finished some time. -/
theorem Diligent.finishes (hd : Diligent ρ) (hr : Reachable Adds (ρ.state 0)) {t : Attempt}
    (hbegan : Began (ρ.state u).world t) : ∃ v, u ≤ v ∧ Finished (ρ.state v).world t := by
  obtain ⟨i, hi⟩ := (hr.state u).inv.held t hbegan
  have hlt : i < (ρ.state u).calls.length := by
    by_contra hge
    exact nomatch ((hr.state u).sound.fresh i (Nat.le_of_not_lt hge)).symm.trans hi
  obtain ⟨v, huv, hended⟩ := hd.fair.ends (List.getElem?_eq_getElem hlt)
  obtain ⟨hg, hkept⟩ := (hr.state u).keeps (ρ.reaches huv)
  refine ⟨v, huv, (hr.state v).finished (hbegan.grows hg) ?_⟩
  rintro ⟨j, hj, hrunning⟩
  obtain rfl := (hr.state v).inv.alone i j t (hkept i t hi) hj
  exact hrunning hended

/-- A worker that is at work on a job comes to the end of its attempt. -/
theorem Diligent.attempts (hd : Diligent ρ) (hr : Reachable Adds (ρ.state 0)) {q : QueueName} {k : ℕ}
    {e : Entry (Option Attempt) (Data q)} (he : (ρ.state u).world.job q k = some e)
    (hactive : e.status = .active) :
    ∃ v, u ≤ v ∧ ∃ e', (ρ.state v).world.job q k = some e' ∧ e.attemptsMade < e'.attemptsMade := by
  obtain ⟨hstarted, -⟩ := ((hr.state u).inv.valid q k e he).active hactive
  have hbegan : Began (ρ.state u).world ⟨q, k, e.attemptsStarted⟩ :=
    ⟨e, he, by rw [hstarted]; exact Nat.succ_pos _, Nat.le_refl _⟩
  obtain ⟨v, huv, hfinished⟩ := hd.finishes hr hbegan
  obtain ⟨e', he', hle⟩ := hfinished.ended
  exact ⟨v, huv, e', he', Nat.lt_of_lt_of_le (hstarted ▸ Nat.lt_succ_self _) hle⟩

/-- Every job is completed or fails for good some time. -/
theorem Diligent.ended (hd : Diligent ρ) (hr : Reachable Adds (ρ.state 0)) {q : QueueName} {k : ℕ}
    {e : Entry (Option Attempt) (Data q)} (he : (ρ.state u).world.job q k = some e) :
    ∃ v, u ≤ v ∧ ∃ e', (ρ.state v).world.job q k = some e' ∧ e'.Over := by
  -- by induction on the number of attempts that are left
  obtain ⟨m, hm⟩ : ∃ m, q.maxAttempts ≤ e.attemptsMade + m :=
    ⟨q.maxAttempts, Nat.le_add_left _ _⟩
  induction m generalizing u e with
  | zero =>
    have hvalid := (hr.state u).inv.valid q k e he
    refine ⟨u, le_rfl, e, he, ?_⟩
    cases hstatus : e.status with
    | waiting => exact absurd (hvalid.waiting hstatus).2 (Nat.not_lt.mpr hm)
    | active => exact absurd (hvalid.active hstatus).2 (Nat.not_lt.mpr hm)
    | completed => exact .inl hstatus
    | failed => exact .inr hstatus
  | succ m ih =>
    have hworked : ∀ {u' e'}, u ≤ u' → (ρ.state u').world.job q k = some e' →
        e.attemptsMade ≤ e'.attemptsMade → e'.status = .active →
          ∃ v, u ≤ v ∧ ∃ e', (ρ.state v).world.job q k = some e' ∧ e'.Over := by
      intro u' e' huu' he' hmade hactive
      obtain ⟨v, huv, e'', he'', hlt⟩ := hd.attempts hr he' hactive
      obtain ⟨v', hvv', hover⟩ := ih he'' (by omega)
      exact ⟨v', huu'.trans (huv.trans hvv'), hover⟩
    cases hstatus : e.status with
    | waiting =>
      obtain ⟨u', huu', e', he', hne⟩ := hd.takes u q k e he hstatus
      have hlater := (hr.later huu').later he he'
      cases hstatus' : e'.status with
      | waiting => exact absurd hstatus' hne
      | active => exact hworked huu' he' hlater.made hstatus'
      | completed => exact ⟨u', huu', e', he', .inl hstatus'⟩
      | failed => exact ⟨u', huu', e', he', .inr hstatus'⟩
    | active => exact hworked le_rfl he (Nat.le_refl _) hstatus
    | completed => exact ⟨u, le_rfl, e, he, .inl hstatus⟩
    | failed => exact ⟨u, le_rfl, e, he, .inr hstatus⟩

/-- Every notification is sent or buried some time. -/
theorem Diligent.sent_or_buried (hd : Diligent ρ) (hr : Reachable Adds (ρ.state 0))
    (hy : (ρ.state u).world.job .notifications n = some y) :
    ∃ v, u ≤ v ∧ ((∃ y', (ρ.state v).world.job .notifications n = some y' ∧
      y'.status = .completed) ∨ Buried (ρ.state v).world n) := by
  obtain ⟨v, huv, y', hy', hover⟩ := hd.ended hr hy
  rcases hover with hcompleted | hfailed
  · exact ⟨v, huv, .inl ⟨y', hy', hcompleted⟩⟩
  · have hall : AllFailed (ρ.state v).world n :=
      fun a hpos hle => (hr.state v).inv.outcome_failed hy' hfailed hpos hle
    obtain ⟨v', hvv', hfinished⟩ := hd.finishes hr (hall.began (hr.state v).inv)
    refine ⟨v', huv.trans hvv', .inr ?_⟩
    rcases hfinished.buried rfl with hlt | ⟨y'', hy'', hcompleted⟩ | hburied | ⟨x, hx, -⟩
    · exact absurd hlt (Nat.lt_irrefl _)
    · obtain rfl := ((hr.later hvv').later hy' hy'').ended (.inr hfailed)
      exact nomatch hfailed.symm.trans hcompleted
    · exact hburied
    · exact absurd hx (hr.state v').not_refused

/-- A dead-letter job is completed some time, and has put the notification back then, if it is not at
    the limit. -/
theorem Diligent.putBack (hd : Diligent ρ) (hr : Reachable Adds (ρ.state 0)) {k : ℕ}
    {x : Entry (Option Attempt) DeadLetterData} (hx : (ρ.state u).world.job .deadLetter k = some x) :
    ∃ v, u ≤ v ∧ ∃ x', (ρ.state v).world.job .deadLetter k = some x' ∧ x'.status = .completed ∧
      (x'.data.dlqCount.getD 0 < DeadLetterProcessor.maxDlqReprocess → ∃ n' y' a,
        (ρ.state v).world.job .notifications n' = some y' ∧ y'.origin = some ⟨.deadLetter, k, a⟩) := by
  obtain ⟨v, huv, x', hx', hover⟩ := hd.ended hr hx
  have hinv := (hr.state v).inv
  rcases hover with hcompleted | hfailed
  · obtain ⟨-, -, houtcome⟩ := hinv.outcome_completed hx' hcompleted
    refine ⟨v, huv, x', hx', hcompleted, fun hlt => ?_⟩
    obtain ⟨n', y', hy', ht⟩ := houtcome x' hx' hlt
    exact ⟨n', y', _, hy', ht⟩
  · obtain ⟨z, hz, -⟩ := hinv.outcome_failed hx' hfailed (a := 1) Nat.one_pos (by decide)
    exact absurd hz (hr.state v).not_refused

/-- What every state knows of the rounds. -/
theorem Reachable.round (hr : Reachable Adds (ρ.state 0))
    (hjob : (ρ.state 0).world.job .notifications n₀ = some e₀) (hfirst : e₀.data.dlqMeta = none)
    (hround : Round (ρ.state u).world n₀ c n) : ∃ y, (ρ.state u).world.job .notifications n = some y ∧
      y.data = e₀.data.inRound c ∧ c ≤ DeadLetterProcessor.maxDlqReprocess := by
  obtain ⟨e, he, hlater⟩ := (hr.later (Nat.zero_le u)).jobs .notifications n₀ e₀ hjob
  obtain ⟨y, hy, -, hdata, hle⟩ := hround.job (hr.state u).inv he (by rw [hlater.data]; exact hfirst)
  exact ⟨y, hy, by rw [hdata, hlater.data], hle⟩

/-- After every round the chain has ended, or there is a further round below the limit. -/
theorem Diligent.round (hd : Diligent ρ) (hr : Reachable Adds (ρ.state 0))
    (hjob : (ρ.state 0).world.job .notifications n₀ = some e₀) (hfirst : e₀.data.dlqMeta = none)
    (hround : Round (ρ.state u).world n₀ c n) : ∃ v, u ≤ v ∧
      (ChainEnds (ρ.state v).world n₀ e₀.data ∨
        c < DeadLetterProcessor.maxDlqReprocess ∧ ∃ n', Round (ρ.state v).world n₀ (c + 1) n') := by
  obtain ⟨y, hy, -⟩ := hr.round hjob hfirst hround
  obtain ⟨v, huv, ⟨y', hy', hcompleted⟩ | ⟨k, x, hx, hid⟩⟩ := hd.sent_or_buried hr hy
  · have hround' := hround.grows (hr.later huv)
    obtain ⟨y'', hy'', hdata, -⟩ := hr.round hjob hfirst hround'
    obtain rfl := Option.some.inj (hy'.symm.trans hy'')
    have hsent := (hr.state v).inv.sent hy' hcompleted
    rw [hdata, inRound_eventName, inRound_payload] at hsent
    exact ⟨v, huv, .inl ⟨c, n, y', hround', hy', .inl ⟨hcompleted, hsent⟩⟩⟩
  · obtain ⟨v', hvv', x', hx', hcompleted, hputBack⟩ := hd.putBack hr hx
    rw [← ((hr.later hvv').later hx hx').data] at hid
    have hinv := (hr.state v').inv
    have hround' := hround.grows (hr.later (huv.trans hvv'))
    obtain ⟨z, hz, hdata, hle⟩ := hr.round hjob hfirst hround'
    obtain ⟨z', hz', -, -, hrecords, hcount, -⟩ := hinv.records hx'
    rw [hid] at hz' hrecords
    obtain rfl := Option.some.inj (hz.symm.trans hz')
    rw [hdata, dlqCount_inRound hfirst] at hcount
    refine ⟨v', huv.trans hvv', ?_⟩
    rcases Nat.lt_or_eq_of_le hle with hlt | hmax
    · obtain ⟨n', y', a, hy', ht⟩ := hputBack (by rwa [hcount])
      exact .inr ⟨hlt, n', .again hround' hx' hid hy' ht⟩
    · rw [hmax] at hcount
      exact .inl ⟨c, n, z, hround', hz, .inr ⟨hmax, k, x', hx', hrecords, hcount, hcompleted,
        hinv.not_putBack hx' hcount⟩⟩

/-- From any round the chain comes to its end. -/
theorem Diligent.chain (hd : Diligent ρ) (hr : Reachable Adds (ρ.state 0))
    (hjob : (ρ.state 0).world.job .notifications n₀ = some e₀) (hfirst : e₀.data.dlqMeta = none)
    (hround : Round (ρ.state u).world n₀ c n) :
    ∃ v, u ≤ v ∧ ChainEnds (ρ.state v).world n₀ e₀.data := by
  -- by induction on the number of rounds that are left
  obtain ⟨m, hm⟩ : ∃ m, DeadLetterProcessor.maxDlqReprocess ≤ c + m := ⟨_, Nat.le_add_left _ _⟩
  induction m generalizing u c n with
  | zero =>
    obtain ⟨v, huv, hends | ⟨hlt, -⟩⟩ := hd.round hr hjob hfirst hround
    · exact ⟨v, huv, hends⟩
    · exact absurd hlt (Nat.not_lt.mpr hm)
  | succ m ih =>
    obtain ⟨v, huv, hends | ⟨-, n', hround'⟩⟩ := hd.round hr hjob hfirst hround
    · exact ⟨v, huv, hends⟩
    · obtain ⟨v', hvv', hends⟩ := ih hround' (by omega)
      exact ⟨v', huv.trans hvv', hends⟩

end Fair

/-- The rounds of a notification that was added without a count, in any run in which every `add`
    succeeds: it is put back three times at most, and sent twelve times at most; in every round its name,
    event and payload are those of the original, and it is buried exactly when all attempts of the round
    have failed, and once; and in every fair run the chain of rounds ends for good. -/
theorem reprocessing_bounded (s : State) (hr : Reachable Adds s) (n₀ : ℕ)
    (e₀ : Entry (Option Attempt) JobData) (hjob : s.world.job .notifications n₀ = some e₀)
    (hfirst : e₀.data.dlqMeta = none) :
    (putBacks s.world n₀).encard ≤ 3 ∧ (sendingsFor s.world n₀).encard ≤ 12 ∧
    (∀ c n, Round s.world n₀ c n → c ≤ 3 ∧ (∀ n', Round s.world n₀ c n' → n' = n) ∧
      (∃ y, s.world.job .notifications n = some y ∧ y.name = e₀.name ∧
        y.data.eventName = e₀.data.eventName ∧ y.data.payload = e₀.data.payload ∧
        y.attemptsStarted ≤ 3) ∧
      (Buried s.world n → AllFailed s.world n) ∧
      (AllFailed s.world n → Buried s.world n ∨ Busy s ⟨.notifications, n, 3⟩) ∧
      ∀ k k' x x', s.world.job .deadLetter k = some x → s.world.job .deadLetter k' = some x' →
        x.data.originalJobId = n → x'.data.originalJobId = n → k = k') ∧
    ∀ ρ : Behavior server Adds, ρ.state 0 = s → Diligent ρ →
      ∃ u, ∀ v, u ≤ v → ChainEnds (ρ.state v).world n₀ e₀.data := by
  have hinv := hr.inv
  refine ⟨putBacks_le hinv hjob hfirst, sendings_le hinv hjob hfirst, fun c n hround => ?_,
    fun ρ hs hd => ?_⟩
  · obtain ⟨y, hy, hname, hdata, hle⟩ := hround.job hinv hjob hfirst
    refine ⟨hle, fun n' h' => hround.unique hinv h', ⟨y, hy, hname, ?_, ?_, ?_⟩,
      fun h => h.allFailed hinv, fun h => ?_, fun k k' x x' hx hx' hid hid' => ?_⟩
    · rw [hdata, inRound_eventName]
    · rw [hdata, inRound_payload]
    · exact (hinv.valid .notifications n y hy).started_le
    · by_cases hbusy : Busy s ⟨.notifications, n, 3⟩
      · exact .inr hbusy
      · exact .inl (hr.buried h hbusy)
    · exact (hinv.buried_once hx hx' (hid'.trans hid.symm)).symm
  · subst hs
    obtain ⟨u, -, hends⟩ := hd.chain hr hjob hfirst (.first (w := (ρ.state 0).world))
    exact ⟨u, fun v huv => hends.grows (hr.later huv) (hr.state v).inv⟩

section Runs

/-- A run that stands still is fair when every call has ended and no job waits. -/
theorem diligent_of_rest (s : State) (hcalls : ∀ c ∈ s.calls, c.program.result?.isSome = true)
    (hjobs : ∀ q k e, s.world.job q k = some e → e.status ≠ .waiting) :
    Diligent ⟨fun _ => s, fun _ => .inl rfl⟩ where
  fair u i hawaits := by
    refine absurd ?_ hawaits
    show s.calls[i]?.bind _ = none
    cases hc : s.calls[i]? with
    | none => rfl
    | some c =>
      have hended := hcalls c (List.mem_of_getElem? hc)
      show c.program.next? = none
      cases hp : c.program with
      | ret a => rfl
      | throw e => rfl
      | await o next =>
        rw [hp] at hended
        cases hended
  takes u q k e he hwaiting := absurd hwaiting (hjobs q k e he)

/-- Three attempts on the notification `n` by the calls from `i` on, in each of which `send` fails. -/
def attempts (n i : ℕ) : List (Label Request Choice) :=
  [.start (.work .notifications n), .step i {}, .step i unreachable, .step i {},
    .start (.work .notifications n), .step (i + 1) {}, .step (i + 1) unreachable, .step (i + 1) {},
    .start (.work .notifications n), .step (i + 2) {}, .step (i + 2) unreachable, .step (i + 2) {},
    .step (i + 2) {}]

def putBack (k i : ℕ) : List (Label Request Choice) :=
  [.start (.work .deadLetter k), .step i {}, .step i {}, .step i {}]

def welcome : JobData := ⟨"Welcome", [("userEmail", .string "a@b.c")], [], none⟩

/-- `send` never succeeds. -/
def exhausted : List (Label Request Choice) :=
  [.start (.notify "welcome" welcome), .step 0 {}] ++ attempts 0 1 ++ putBack 0 4 ++
    attempts 1 5 ++ putBack 1 8 ++ attempts 2 9 ++ putBack 2 12 ++ attempts 3 13 ++
    [.start (.work .deadLetter 3), .step 16 {}, .step 16 {}]

theorem reprocessing_bounded_exhausted : ∃ s : State, Reachable Adds s ∧
    s.world.sendings.length = 12 ∧ (s.world.jobs .notifications).length = 4 ∧
    (putBacks s.world 0).encard ≤ 3 ∧ (sendingsFor s.world 0).encard ≤ 12 ∧
    ChainEnds s.world 0 welcome := by
  have hrun : (server.runUnder Adds exhausted ⟨World.empty, []⟩).map (fun s =>
      decide (s.world.sendings.length = 12 ∧ (s.world.jobs .notifications).length = 4 ∧
        s.world.job .notifications 0 = some ⟨"welcome", welcome, none, .failed, 3, 3⟩ ∧
        (∀ c ∈ s.calls, c.program.result?.isSome = true) ∧
        ∀ q ∈ [QueueName.domainEvents, .notifications, .deadLetter],
          ∀ e ∈ s.world.jobs q, e.status ≠ .waiting)) = some true := by
    decide +kernel
  obtain ⟨s, hs, hfacts⟩ := Option.map_eq_some_iff.mp hrun
  obtain ⟨hsendings, hnotifications, hjob, hcalls, hjobs⟩ := of_decide_eq_true hfacts
  have hr : Reachable Adds s := Server.reaches_of_runUnder hs
  obtain ⟨hputBacks, hsent, -, hends⟩ := reprocessing_bounded s hr 0 _ hjob rfl
  have hrest : Diligent ⟨fun _ => s, fun _ => .inl rfl⟩ := by
    refine diligent_of_rest s hcalls fun q k e he => hjobs q ?_ e (List.mem_of_getElem? he)
    cases q <;> decide
  obtain ⟨u, hu⟩ := hends _ rfl hrest
  exact ⟨s, hr, hsendings, hnotifications, hputBacks, hsent, hu u le_rfl⟩

end Runs

end LiorParisWallet.Queues
