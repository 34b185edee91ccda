import FpgaGpu.Umd.HostProgram
import FpgaGpu.Umd.SoleClient

/-! A host program whose waits are not given up sees a device that does its calls in
order: whatever a call has set going is over when the call returns. -/
namespace FpgaGpu.Umd
open Driver Library

/-- The task that `t` published has been run. -/
def Ran (log : List (ClientEvent Unit)) (t : Ticket Unit) : Prop :=
  ∃ p job, (pubIn log)[p]? = some (t,job) ∧ p < ranIn log

/-- What `t` has published is what was published last. -/
def Last (log : List (ClientEvent Unit)) (t : Ticket Unit) : Prop :=
  ∀ p job, (pubIn log)[p]? = some (t,job) → (pubIn log).length = p + 1

/-- The device is as it was before the task of `t`, or as it is after. -/
def Turn (log : List (ClientEvent Unit)) (t : Ticket Unit) (before after v : Accelerator) : Prop :=
  Ran log t ∧ v = after ∨ ¬Ran log t ∧ v = before

/-- The page and the program are in place. -/
def Launch.armed (launch : Launch) (m : Accelerator) : Accelerator :=
  (m.upload launch.page).load launch.program

/-- The device after a step of the driver or the firmware. -/
def Accelerator.after (gpu : Gpu) (dev : Device) (es : List (ClientEvent Unit))
    (v : Accelerator) : Accelerator :=
  ⟨dev.iram,{v.runtime with vram := es.foldl (ClientEvent.vram gpu dev.kernarg) v.runtime.vram}⟩

/-- The launch is published. -/
def Launched (gpu : Gpu) (log : List (ClientEvent Unit)) (launch : Launch) (m v : Accelerator) :
    Prop :=
  ∃ (t : Ticket Unit) (cmd : LaunchCmd) (p : Nat), launch.cmd = some cmd ∧
    (pubIn log)[p]? = some (t,.submit cmd) ∧ Last log t ∧
    Turn log t (launch.armed m) ((launch.armed m).run gpu cmd) v

/-- How far a call that found the device at `m` has brought it. -/
def Midway (gpu : Gpu) (log : List (ClientEvent Unit)) (m v : Accelerator) : Phase Unit → Prop
  | .upload _ => v = m
  | .issue launch .load => v = m.upload launch.page
  | .issue launch .submit => v = launch.armed m
  | .issue launch .doorbell => Launched gpu log launch m v
  | .inside t => match t.ioctl with
    | .load => Turn log t (m.upload t.launch.page) (t.launch.armed m) v
    | .submit => Last log t ∧ ∀ cmd, t.launch.cmd = some cmd →
        Turn log t (t.launch.armed m) ((t.launch.armed m).run gpu cmd) v
    | .doorbell => Launched gpu log t.launch m v
  | _ => False

section quiet
variable {log es : List (ClientEvent Unit)} {t : Ticket Unit}

theorem Turn.congr {log' : List (ClientEvent Unit)} {before after v : Accelerator}
    (h : Turn log t before after v) (hran : Ran log' t ↔ Ran log t) :
    Turn log' t before after v := by
  rwa [Turn, hran]

theorem ran_append_quiet (hes : ringLog es = []) : Ran (log ++ es) t ↔ Ran log t := by
  rw [Ran, Ran, pubIn_append_quiet hes, ranIn_append_quiet hes]

theorem last_append_quiet (hes : ringLog es = []) : Last (log ++ es) t ↔ Last log t := by
  rw [Last, Last, pubIn_append_quiet hes]

theorem Launched.quiet {gpu : Gpu} {launch : Launch} {m v : Accelerator}
    (h : Launched gpu log launch m v) (hes : ringLog es = []) :
    Launched gpu (log ++ es) launch m v := by
  obtain ⟨t,cmd,p,hcmd,hget,hlast,hturn⟩ := h
  refine ⟨t,cmd,p,hcmd,?_,(last_append_quiet hes).mpr hlast,hturn.congr (ran_append_quiet hes)⟩
  rwa [pubIn_append_quiet hes]

/-- A VRAM that nothing has run on. -/
theorem vram_ring {gpu : Gpu} {page : Nat → UInt32} {es : List (Event (Ticket Unit))}
    (hes : executedIn es = []) (vram : UInt64 → UInt8) :
    (es.map ClientEvent.ring).foldl (ClientEvent.vram gpu page) vram = vram := by
  induction es with
  | nil => rfl
  | cons e es ih =>
    cases e with
    | executed desc dev => simp at hes
    | _ => exact ih hes

end quiet

section ring
variable {gpu : Gpu} {log : List (ClientEvent Unit)} {u : Clients Unit} {m v : Accelerator}
  {launch : Launch} (h : (clientSystem Unit 0).RunWith Untroubled log u)
  {a : Action (Ticket Unit)} {ring' : State (Ticket Unit)} {es : List (Event (Ticket Unit))}
  (hrule : Rule 0 u.ring a ring' es)
include h

theorem ran_append_idle (hes : executedIn es = []) (t : Ticket Unit) :
    Ran (log ++ es.map .ring) t ↔ Ran log t := by
  have hran : ranIn (log ++ es.map .ring) = ranIn log := by
    rw [ranIn_append_ring, hes, List.length_nil, Nat.add_zero]
  have hle : ranIn log ≤ (pubIn log).length := executed_le_published (ring_run h.run)
  simp only [Ran, hran, pubIn_append_ring]
  refine exists_congr fun p => exists_congr fun job => and_congr_left fun hp => ?_
  rw [List.getElem?_append_left (hp.trans_le hle)]

/-- Only one position is that of `t`. -/
theorem ran_iff_of_published {t : Ticket Unit} {p : Nat} {job : Job}
    (hget : (pubIn log)[p]? = some (t,job)) : Ran log t ↔ p < ranIn log := by
  constructor
  · rintro ⟨p',job',hget',hp'⟩
    rwa [published_once (ring_run h.run) t p p' job job' hget hget']
  · exact fun hp => ⟨p,job,hget,hp⟩

/-- A client that owes nothing has had everything run. -/
theorem ran_of_settled (hphase : ∀ (t : Ticket Unit) p, ¬(u.phase ()).Owes (ringLog log) t p)
    {t : Ticket Unit} {p : Nat} {job : Job} (hget : (pubIn log)[p]? = some (t,job)) :
    Ran log t := by
  refine ⟨p,job,hget,lt_of_lt_of_le ?_ (consumed_le_executed (ring_run h.run))⟩
  by_contra hp
  exact hphase t p ((debtInv_run h).owes p (t,job) (not_lt.mp hp) hget)

include hrule

/-- Nothing is published behind a launch. -/
theorem last_append_ring {t : Ticket Unit} (hlast : Last log t)
    (hphase : ∀ t', u.phase () = .inside t' → t'.ioctl ≠ .doorbell → t' = t) :
    Last (log ++ es.map .ring) t := by
  rcases hrule.publishes with hnone | ⟨t',job,tail,hpc,hone⟩
  · rw [Last, pubIn_append_ring, hnone, List.append_nil]
    exact hlast
  · obtain ⟨hin,hjob⟩ := publisher_inside h.run hpc
    obtain rfl := hphase t' hin (publisher_ioctl hjob)
    have hcall := callInv_run (ring_run h.run) t'
    rw [hpc] at hcall
    rw [Last, pubIn_append_ring, hone]
    intro p job' hget
    rcases getElem?_concat_eq_some.mp hget with hold | ⟨rfl,-⟩
    · exact absurd (List.mem_of_getElem? hold) (not_mem_publishedIn hcall.1.1 _)
    · simp

theorem Launched.ring (hlaunched : Launched gpu log launch m v) (hes : executedIn es = [])
    (hphase : ∀ t', u.phase () = .inside t' → t'.ioctl = .doorbell) :
    Launched gpu (log ++ es.map .ring) launch m v := by
  obtain ⟨t,cmd,p,hcmd,hget,hlast,hturn⟩ := hlaunched
  refine ⟨t,cmd,p,hcmd,?_,
    last_append_ring h hrule hlast fun t' hin hio => absurd (hphase t' hin) hio,
    hturn.congr (ran_append_idle h hes t)⟩
  rw [pubIn_append_ring]
  exact (List.getElem?_append_left (List.getElem?_eq_some_iff.mp hget).1).trans hget

/-- A step that runs no task. -/
theorem midway_idle (hmid : Midway gpu log m v (u.phase ())) (hes : executedIn es = []) :
    Midway gpu (log ++ es.map .ring) m v (u.phase ()) := by
  cases hphase : u.phase () with
  | idle | crashed => simp [hphase, Midway] at hmid
  | upload launch => simpa [hphase, Midway] using hmid
  | issue launch io =>
    rw [hphase] at hmid
    cases io with
    | load | submit => exact hmid
    | doorbell => exact hmid.ring h hrule hes (by simp [hphase])
  | inside t =>
    rw [hphase] at hmid
    unfold Midway at hmid ⊢
    cases hio : t.ioctl with
    | load =>
      simp only [hio] at hmid ⊢
      exact hmid.congr (ran_append_idle h hes t)
    | submit =>
      simp only [hio] at hmid ⊢
      refine ⟨last_append_ring h hrule hmid.1 fun t' hin _ => ?_,fun cmd hcmd =>
        (hmid.2 cmd hcmd).congr (ran_append_idle h hes t)⟩
      rw [hphase] at hin
      exact (Phase.inside.inj hin).symm
    | doorbell =>
      simp only [hio] at hmid ⊢
      refine hmid.ring h hrule hes fun t' hin => ?_
      rw [hphase] at hin
      rw [← Phase.inside.inj hin, hio]

omit hrule in
/-- What is run while the client is in `phase` is the task it waits for. -/
theorem run_owed {t : Ticket Unit} {job : Job} (hget : (pubIn log)[ranIn log]? = some (t,job)) :
    (u.phase ()).Owes (ringLog log) t (ranIn log) :=
  (debtInv_run h).owes _ (t,job) (consumed_le_executed (ring_run h.run)) hget

omit hrule in
/-- A published launch that is waited for is the next to run, or nothing is. -/
theorem Launched.next {t : Ticket Unit} {job : Job} (hlaunched : Launched gpu log launch m v)
    (hget : (pubIn log)[ranIn log]? = some (t,job)) :
    v = launch.armed m ∧ ∃ cmd, launch.cmd = some cmd ∧ job = .submit cmd ∧ Last log t := by
  obtain ⟨t',cmd,p,hcmd,hget',hlast,hturn⟩ := hlaunched
  have hp := hlast p _ hget'
  have hlt := (List.getElem?_eq_some_iff.mp hget).1
  have hwaits : ¬Ran log t' := by
    rw [ran_iff_of_published h hget']
    omega
  have hle : ranIn log ≤ p := by omega
  have hcon : consumedCount (ringLog log) ≤ ranIn log := consumed_le_executed (ring_run h.run)
  obtain rfl : p = ranIn log :=
    (debtInv_run h).one p _ _ _ (hcon.trans hle) hcon hget' hget rfl
  obtain ⟨rfl,rfl⟩ := Prod.mk.inj (Option.some.inj (hget.symm.trans hget'))
  rcases hturn with ⟨hran,-⟩ | ⟨-,hv⟩
  · exact absurd hran hwaits
  · exact ⟨hv,cmd,hcmd,rfl,hlast⟩

omit h hrule in
/-- What running a task makes of the device. -/
theorem after_executed (v : Accelerator) (job : Job) (dev dev' : Device) :
    v.after gpu dev' ([.executed job.task.words dev].map .ring) = ⟨dev'.iram,{v.runtime with
      vram := if job.task.opcode = opcodeLoadKernel then v.runtime.vram
        else gpu job.task.words dev.iram v.runtime.vram}⟩ := rfl

omit hrule in
/-- The firmware runs a task: it is the one the call waits for. -/
theorem midway_run (hmid : Midway gpu log m v (u.phase ())) (hv : v.iram = u.ring.dev.iram)
    {t : Ticket Unit} {job : Job} (hget : (pubIn log)[ranIn log]? = some (t,job))
    (hes : es = [.executed job.task.words u.ring.dev])
    (hdev : ring'.dev = u.ring.dev.execute job.task.words) :
    Midway gpu (log ++ es.map .ring) m (v.after gpu ring'.dev (es.map .ring))
      (u.phase ()) := by
  have hpub : pubIn (log ++ es.map .ring) = pubIn log := by
    rw [pubIn_append_ring, hes]
    simp
  have hran : Ran (log ++ es.map .ring) t := by
    refine ⟨ranIn log,job,hpub ▸ hget,?_⟩
    rw [ranIn_append_ring, hes]
    simp
  have hwaits : ¬Ran log t := by
    rw [ran_iff_of_published h hget]
    exact lt_irrefl _
  have howes := run_owed h hget
  have hjob := published_ticket h.run (List.mem_of_getElem? hget)
  -- the effect of a launch
  have hlaunch : ∀ cmd, job = .submit cmd →
      v.after gpu ring'.dev (es.map .ring) = v.run gpu cmd := by
    rintro cmd rfl
    have hopcode := published_isLaunch h.run (List.mem_of_getElem? hget)
    have hne : (Job.submit cmd).task.opcode ≠ opcodeLoadKernel := by
      simp [Job.task, submitTask, hopcode]
      decide
    rw [hes, after_executed, if_neg hne, hdev, execute_launch _ hopcode, Accelerator.run, hv]
    rfl
  have hlaunched : ∀ launch, Launched gpu log launch m v →
      Launched gpu (log ++ es.map .ring) launch m (v.after gpu ring'.dev (es.map .ring)) := by
    intro launch hl
    obtain ⟨hbefore,cmd,hcmd,rfl,hlast⟩ := hl.next h hget
    refine ⟨t,cmd,ranIn log,hcmd,hpub ▸ hget,?_,.inl ⟨hran,?_⟩⟩
    · rwa [Last, hpub]
    · rw [hlaunch cmd rfl, hbefore]
  cases hphase : u.phase () with
  | idle | crashed => simp [hphase, Midway] at hmid
  | upload => simp [hphase, Phase.Owes] at howes
  | issue launch io =>
    rw [hphase] at hmid howes
    obtain rfl : io = .doorbell := howes
    exact hlaunched launch hmid
  | inside t' =>
    rw [hphase] at hmid howes
    unfold Midway at hmid ⊢
    cases hio : t'.ioctl with
    | doorbell =>
      simp only [hio] at hmid ⊢
      exact hlaunched _ hmid
    | load =>
      simp only [hio] at hmid ⊢
      obtain rfl : t' = t := howes.resolve_right fun hbell => by simp [hio] at hbell
      have hbefore : v = m.upload t'.launch.page := by
        rcases hmid with ⟨hbad,-⟩ | ⟨-,hbefore⟩
        · exact absurd hbad hwaits
        · exact hbefore
      cases job with
      | submit cmd => simp [(call_eq_submit hjob).1] at hio
      | load kbin =>
        obtain ⟨-,rfl⟩ := call_eq_load hjob
        have hfacts := (soleInv_run h.run).1.phases ()
        simp only [PhaseInv, Phase.Facts, hphase, hio] at hfacts
        have hstaged := hfacts.2.1.pending _ _ hget le_rfl
        refine .inl ⟨hran,?_⟩
        have hopcode : (Job.load t'.launch.kbin).task.opcode = opcodeLoadKernel := rfl
        rw [hes, after_executed, if_pos hopcode, hdev, execute_load, Launch.armed, ← hbefore,
          Accelerator.load, hv]
        congr 1
        funext i
        refine if_ctx_congr Iff.rfl (fun hi => ?_) fun _ => rfl
        have hword : t'.launch.program.binaryWords[i]? = some (u.ring.dev.staging i) :=
          hstaged i hi
        rw [List.getD_eq_getElem?_getD, hword, Option.getD_some]
    | submit =>
      simp only [hio] at hmid ⊢
      obtain rfl : t' = t := howes.resolve_right fun hbell => by simp [hio] at hbell
      refine ⟨by rw [Last, hpub]; exact hmid.1,fun cmd hcmd => .inl ⟨hran,?_⟩⟩
      cases job with
      | load kbin => simp [(call_eq_load hjob).1] at hio
      | submit cmd' =>
        obtain rfl := Option.some.inj ((call_eq_submit hjob).2.symm.trans hcmd)
        rw [hlaunch _ rfl]
        rcases hmid.2 _ hcmd with ⟨hbad,-⟩ | ⟨-,hbefore⟩
        · exact absurd hbad hwaits
        · rw [hbefore]

end ring

section moves
variable {gpu : Gpu} {log : List (ClientEvent Unit)} {u : Clients Unit} {m v : Accelerator}
  (h : (clientSystem Unit 0).RunWith Untroubled log u)
  {a : Action (Ticket Unit)} {ring' : State (Ticket Unit)} {es : List (Event (Ticket Unit))}
  (hrule : Rule 0 u.ring a ring' es) (ha : ringOnly a = true) (hv : v.iram = u.ring.dev.iram)
include h hrule ha hv

/-- Either the device stays as it is, or the next task is run. -/
theorem after_cases :
    (executedIn es = [] ∧ v.after gpu ring'.dev (es.map .ring) = v) ∨
    ∃ t job, (pubIn log)[ranIn log]? = some (t,job) ∧
      es = [.executed job.task.words u.ring.dev] ∧
      ring'.dev = u.ring.dev.execute job.task.words := by
  have hsame : executedIn es = [] → ring'.dev.iram = u.ring.dev.iram →
      executedIn es = [] ∧ v.after gpu ring'.dev (es.map .ring) = v := by
    intro hes hdev
    rw [Accelerator.after, vram_ring hes, hdev, ← hv]
    exact ⟨hes,rfl⟩
  rcases hrule.device (ring_run h.run) (by rintro page rfl; simp [ringOnly] at ha) with
    ⟨hes,hdev⟩ | ⟨t,kbin,i,w,-,-,rfl,rfl⟩ | ⟨t,job,hget,hes,-,hdev⟩
  · exact .inl (hsame hes (by rw [hdev]))
  · exact .inl (hsame rfl rfl)
  · exact .inr ⟨t,job,hget,hes,hdev⟩

/-- A step of the driver or the firmware moves the call on, or leaves it where it is. -/
theorem midway_ring (hmid : Midway gpu log m v (u.phase ())) :
    Midway gpu (log ++ es.map .ring) m (v.after gpu ring'.dev (es.map .ring)) (u.phase ()) := by
  rcases after_cases h hrule ha hv with ⟨hes,hsame⟩ | ⟨t,job,hget,hes,hdev⟩
  · rw [hsame]
    exact midway_idle h hrule hmid hes
  · exact midway_run h hmid hv hget hes hdev

/-- Between the calls the device stays as it is. -/
theorem after_settled (hidle : u.phase () = .idle) :
    v.after gpu ring'.dev (es.map .ring) = v := by
  rcases after_cases h hrule ha hv with ⟨-,hsame⟩ | ⟨t,job,hget,-,-⟩
  · exact hsame
  · have howes := run_owed h hget
    simp [hidle, Phase.Owes] at howes

end moves

/-- A call that has begun found the device as the calls before it lead to it. -/
def Underway (gpu : Gpu) (m₀ : Accelerator) (log : List HostEvent) (v : Accelerator)
    (launch : Launch) (phase : Phase Unit) : Prop :=
  ∃ done m nd memalign, (inOrderSystem gpu m₀).Run done m ∧
    outcomes log = done ++ [.entered nd] ∧ prepare nd memalign = .ok launch ∧
    Midway gpu (clientLog log) m v phase

def HostAt (gpu : Gpu) (m₀ : Accelerator) (log : List HostEvent) (v : Accelerator) :
    Phase Unit → Prop
  | .idle => (inOrderSystem gpu m₀).Run (outcomes log) v
  | .upload launch => Underway gpu m₀ log v launch (.upload launch)
  | .issue launch io => Underway gpu m₀ log v launch (.issue launch io)
  | .inside t => Underway gpu m₀ log v t.launch (.inside t)
  | .crashed => True

theorem Underway.step {gpu : Gpu} {m₀ v v' : Accelerator} {log es : List HostEvent}
    {launch : Launch} {phase phase' : Phase Unit} (h : Underway gpu m₀ log v launch phase)
    (hes : outcomes es = []) (hmid : ∀ m, Midway gpu (clientLog log) m v phase →
      Midway gpu (clientLog (log ++ es)) m v' phase') :
    Underway gpu m₀ (log ++ es) v' launch phase' := by
  obtain ⟨done,m,nd,memalign,hdone,hlog,hprepare,hold⟩ := h
  refine ⟨done,m,nd,memalign,hdone,?_,hprepare,hmid m hold⟩
  rw [outcomes_append, hes, List.append_nil, hlog]

/-- The page on the device is the page that was uploaded. -/
theorem writePage_upload (dev : Device) (page : Nat → UInt32) (vram : UInt64 → UInt8) :
    writePage (dev.upload page).kernarg vram = writePage page vram := by
  funext addr
  unfold writePage
  split
  next haddr =>
    have hword : addr.toNat / 4 < kernargWords := by omega
    simp [Device.upload, hword]
  next => rfl

section result
variable {gpu : Gpu} {log : List (ClientEvent Unit)} {u : Clients Unit} {m v : Accelerator}
  (h : (clientSystem Unit 0).RunWith Untroubled log u) {t : Ticket Unit}
  (hphase : u.phase () = .inside t)
include h hphase

/-- No ioctl fails. -/
theorem inside_ok {ret : Ret} (hpc : u.ring.pc t = .done ret) : ret = .ok := by
  cases ret with
  | ok => rfl
  | err e =>
    obtain ⟨rfl,-⟩ := inside_refused h hphase hpc
    have hbusy : (u.ring.pc t).Busy := by simp [hpc, Pc.Busy]
    exact absurd hbusy (never_busy h (by decide) t)

variable (hpc : u.ring.pc t = .done .ok)
include hpc

/-- LOAD_KERNEL returns with the program in I-RAM. -/
theorem midway_loaded (hio : t.ioctl = .load) (hmid : Midway gpu log m v (.inside t)) :
    v = t.launch.armed m := by
  have hring := ring_run h.run
  have hcall : t.call = .loadKernel (some t.launch.kbin) := by simp [Ticket.call, hio]
  have hcalled := ((ticketInv_run h.run).inside () t hphase).2
  obtain ⟨p,hpub,_,_,-,hcon⟩ := load_sound hring (hcall ▸ hcalled) hpc
  have hget : (pubIn log)[p]? = some (t,.load t.launch.kbin) := (hpub p _).mpr ⟨rfl,rfl⟩
  have hran : Ran log t := ⟨p,_,hget,
    lt_of_lt_of_le (List.getElem?_eq_some_iff.mp hcon).1 (consumed_le_executed hring)⟩
  simp only [Midway, hio] at hmid
  rcases hmid with ⟨-,hv⟩ | ⟨hwaits,-⟩
  · exact hv
  · exact absurd hran hwaits

/-- SUBMIT_CMD returns with the launch published. -/
theorem midway_submitted (hio : t.ioctl = .submit) (hmid : Midway gpu log m v (.inside t)) :
    Launched gpu log t.launch m v := by
  obtain ⟨p,t',cmd,heq,-,hget⟩ := submittedAs_of_done h.run hphase hio hpc
  obtain rfl := Option.some.inj heq
  have hcmd := (call_eq_submit (published_ticket h.run (List.mem_of_getElem? hget))).2
  simp only [Midway, hio] at hmid
  exact ⟨t,cmd,p,hcmd,hget,hmid.1,hmid.2 cmd hcmd⟩

end result

/-- A client that waits for nothing has had its launch run. -/
theorem Launched.settled {gpu : Gpu} {log : List (ClientEvent Unit)} {u : Clients Unit}
    {launch : Launch} {m v : Accelerator} (h : (clientSystem Unit 0).RunWith Untroubled log u)
    (hidle : u.phase () = .idle) (hl : Launched gpu log launch m v) :
    ∃ cmd, launch.cmd = some cmd ∧ v = (launch.armed m).run gpu cmd := by
  obtain ⟨t,cmd,p,hcmd,hget,-,hturn⟩ := hl
  have hran : Ran log t := ran_of_settled h (by simp [hidle, Phase.Owes]) hget
  rcases hturn with ⟨-,hv⟩ | ⟨hwaits,-⟩
  · exact ⟨cmd,hcmd,hv⟩
  · exact absurd hran hwaits

section host
variable {gpu : Gpu} {m₀ : Accelerator} {log : List HostEvent} {s : HostState}

theorem hostAt_client (h : (hostSystem gpu m₀).RunWith HostUntroubled log s)
    (hat : HostAt gpu m₀ log s.view (s.clients.phase ())) {a : ClientAction Unit}
    {u' : Clients Unit} {es : List (ClientEvent Unit)}
    (hok : Untroubled (clientLog log) s.clients a)
    (hstep : (clientSystem Unit 0).step s.clients a = some (u',es))
    (hrule : ClientRule 0 s.clients a u' es) :
    HostAt gpu m₀ (log ++ es.map .client) (s.view.after gpu u'.ring.dev es) (u'.phase ()) := by
  have hclient := client_run h
  have hclient' := hclient.step hok hstep
  cases hrule with
  | refused k nd memalign status hphase hprepare =>
    obtain rfl : k = () := rfl
    rw [hphase] at hat ⊢
    have hcall : (inOrderSystem gpu m₀).step s.view (.launch nd memalign) =
        some (s.view,[.entered nd,.returned status]) := by
      simp [inOrderSystem, Accelerator.step, hprepare]
    have hsame : s.view.after gpu s.clients.ring.dev [.entered () nd,.returned () status] =
        s.view := rfl
    rw [hsame, HostAt, outcomes_append]
    exact System.Run.next hat hcall
  | entered k nd memalign launch hphase hprepare =>
    obtain rfl : k = () := rfl
    rw [hphase] at hat
    rw [Clients.setPhase_phase_self]
    exact ⟨outcomes log,s.view,nd,memalign,hat,by simp [outcomes, HostEvent.outcome?],hprepare,rfl⟩
  | uploaded k launch hphase =>
    obtain rfl : k = () := rfl
    rw [hphase] at hat
    rw [Clients.setPhase_phase_self]
    refine Underway.step hat rfl fun m hmid => ?_
    obtain rfl : s.view = m := hmid
    have hpage := writePage_upload s.clients.ring.dev launch.page s.runtime.vram
    simp only [Midway, Accelerator.after, Accelerator.upload, List.foldl_cons, List.foldl_nil,
      ClientEvent.vram]
    rw [show s.view.runtime.vram = s.runtime.vram from rfl, ← hpage]
    rfl
  | uploadFailed | uploadBroken => cases hok
  | ioctl k launch io t hphase ht hready =>
    obtain rfl : k = () := rfl
    obtain ⟨hio,rfl⟩ : t.ioctl = io ∧ t.launch = launch := by simp [ht]
    have hrule : Rule 0 s.clients.ring (.start t t.call) _ [.called t t.call] :=
      .start t t.call hready
    have hphase' : (s.clients.setPhase () (.inside t)).phase () = .inside t :=
      Clients.setPhase_phase_self _ _ _
    -- the call has published nothing yet
    have hfresh := callInv_run (ring_run hclient.run) t
    rw [hready] at hfresh
    have hnone : ∀ p job, (pubIn (clientLog log))[p]? ≠ some (t,job) := fun p job hget =>
      not_mem_publishedIn hfresh.1.1 job (List.mem_of_getElem? hget)
    have hwaits : ¬Ran (clientLog log) t := by
      rintro ⟨p,job,hget,-⟩
      exact hnone p job hget
    have hidle : executedIn [Event.called t t.call] = [] := rfl
    have hran := ran_append_idle hclient hidle t
    rw [hphase] at hat
    change HostAt gpu m₀ _ s.view ((s.clients.setPhase () (.inside t)).phase ())
    rw [hphase']
    refine Underway.step hat rfl fun m hmid => ?_
    rw [clientLog_append, clientLog_map]
    cases io with
    | load =>
      simp only [Midway, hio] at hmid ⊢
      exact .inr ⟨fun hbad => hwaits (hran.mp hbad),hmid⟩
    | submit =>
      simp only [Midway, hio] at hmid ⊢
      refine ⟨fun p job hget => ?_,fun cmd _ => .inr ⟨fun hbad => hwaits (hran.mp hbad),hmid⟩⟩
      rw [pubIn_append_called] at hget
      exact absurd hget (hnone p job)
    | doorbell =>
      simp only [Midway, hio] at hmid ⊢
      exact hmid.ring hclient hrule hidle (by simp [hphase])
  | ring a ring' es ha hring =>
    have hrule := rule_of_step hring
    have hmove : ∀ launch, Underway gpu m₀ log s.view launch (s.clients.phase ()) →
        Underway gpu m₀ (log ++ (es.map ClientEvent.ring).map .client)
          (s.view.after gpu ring'.dev (es.map .ring)) launch (s.clients.phase ()) := by
      intro launch hin
      refine hin.step (outcomes_ring es) fun m hmid => ?_
      rw [clientLog_append, clientLog_map]
      exact midway_ring hclient hrule ha rfl hmid
    change HostAt gpu m₀ _ _ (s.clients.phase ())
    cases hphase : s.clients.phase () with
    | idle =>
      rw [hphase] at hat
      rw [after_settled hclient hrule ha rfl hphase, HostAt, outcomes_append, outcomes_ring,
        List.append_nil]
      exact hat
    | crashed => trivial
    | upload | issue | inside =>
      rw [hphase] at hat hmove
      exact hmove _ hat
  | result k t ret restart hphase hpc =>
    obtain rfl : k = () := rfl
    obtain rfl := inside_ok hclient hphase hpc
    rw [Clients.setPhase_phase_self]
    rw [hphase] at hat
    cases hio : t.ioctl with
    | load =>
      rw [afterIoctl_ok, hio]
      by_cases hcmd : t.launch.cmd.isSome = true
      · simp only [hcmd, if_true, Option.toList_none, List.map_nil]
        exact Underway.step hat rfl fun m hmid => midway_loaded hclient hphase hpc hio hmid
      · simp only [hcmd]
        trivial
    | submit =>
      simp only [afterIoctl_ok, hio, Option.toList_none, List.map_nil]
      refine Underway.step hat rfl fun m hmid => ?_
      rw [List.append_nil]
      exact midway_submitted hclient hphase hpc hio hmid
    | doorbell =>
      obtain ⟨done,m,nd,memalign,hdone,hlog,hprepare,hmid⟩ := hat
      simp only [afterIoctl_ok, hio, Option.toList_some, List.map_cons, List.map_nil] at hclient' ⊢
      simp only [Midway, hio] at hmid
      obtain ⟨cmd,hcmd,hv⟩ := (hmid.quiet rfl).settled hclient' (Clients.setPhase_phase_self _ _ _)
      have hcall : (inOrderSystem gpu m₀).step m (.launch nd memalign) =
          some ((t.launch.armed m).run gpu cmd,[.entered nd,.returned .CL_SUCCESS]) := by
        simp [inOrderSystem, Accelerator.step, hprepare, hcmd, Launch.armed]
      have hnext := System.Run.next hdone hcall
      rw [← hv] at hnext
      change (inOrderSystem gpu m₀).Run (outcomes (log ++ [.client (.returned () .CL_SUCCESS)]))
        s.view
      rw [outcomes_append, hlog, List.append_assoc]
      exact hnext

theorem hostAt_run (h : (hostSystem gpu m₀).RunWith HostUntroubled log s) :
    HostAt gpu m₀ log s.view (s.clients.phase ()) := by
  refine h.invariant (I := fun log s => HostAt gpu m₀ log s.view (s.clients.phase ())) ?_ ?_
  · intro s hs
    rw [hs.1.2.1 ()]
    have hview : s.view = m₀ := by rw [HostState.view, hs.2.1, hs.2.2]
    exact .init hview
  · intro log s a s' es hrun hat hok hstep
    cases a with
    | buffer call =>
      simp only [hostSystem, HostState.step] at hstep
      split at hstep
      next hphase =>
        split at hstep
        next => contradiction
        next runtime bes hcall =>
          cases hstep
          rw [hphase] at hat ⊢
          have hnext : (inOrderSystem gpu m₀).step s.view (.buffer call) =
              some ({s.view with runtime},[.buffer call bes]) := by
            have hcall : s.view.runtime.step call = some (runtime,bes) := hcall
            simp [inOrderSystem, Accelerator.step, hcall]
          rw [HostAt, outcomes_append]
          exact System.Run.next hat hnext
      next => contradiction
    | client a =>
      simp only [hostSystem, HostState.step] at hstep
      split at hstep
      next => contradiction
      next clients ces hclient =>
        cases hstep
        exact hostAt_client hrun hat hok hclient (clientRule_of_step hclient)

/-- Whatever the driver, the firmware and the GPU do in between, a program whose waits are
not given up sees a device on which every call happens at once and in order. -/
theorem runs_in_order (h : (hostSystem gpu m₀).RunWith HostUntroubled log s)
    (hidle : s.clients.phase () = .idle) :
    (inOrderSystem gpu m₀).Run (outcomes log) s.view := by
  have hat := hostAt_run h
  rwa [hidle] at hat

end host

/-- The calls and steps that `HostUntroubled` allows. -/
def untroubledStep (_ : HostState) : HostAction → Bool
  | .client (.enqueue _ nd _) => match nd.kernel.bind Kernel.program with
    | some program => program.numInstructions != 0 && program.numInstructions ≤ 1024
    | none => true
  | .client (.dma _ .ok) => true
  | .client (.dma _ _) | .client (.ring (.expire _)) | .client (.ring (.interrupt _)) => false
  | _ => true

theorem untroubledStep_sound (log : List HostEvent) (s : HostState) (a : HostAction)
    (h : untroubledStep s a = true) : HostUntroubled log s a := by
  cases a with
  | buffer call => trivial
  | client a =>
    cases a with
    | enqueue k nd memalign =>
      rintro kernel program hkernel hprogram
      simpa [untroubledStep, hkernel, hprogram] using h
    | dma k result =>
      cases result with
      | ok => rfl
      | failed left => nomatch h
    | ring a =>
      cases a with
      | expire | interrupt => nomatch h
      | _ => trivial
    | _ => trivial

/-- A GPU that adds the program's first word and the first argument to one byte. -/
def addingGpu : Gpu := fun _ iram vram addr =>
  if addr = 65536 then vram addr + (iram 0).toUInt8 + vram 0 else vram addr

def accelerator₀ : Accelerator :=
  ⟨fun _ => 0,⟨⟨Vram.static,fun _ => none,fun _ => none⟩,fun _ => 0,fun _ => 0⟩⟩

def hostState₀ : HostState := ⟨freshClients Unit,accelerator₀.runtime⟩

/-- A buffer is written, a kernel is launched on it, and the buffer is read. -/
def hostTrace : List HostAction :=
  [.buffer (.api (.clCreateContext 1 true (some 3) none (some 1))),
    .buffer (.api (.clCreateBuffer (some 1) 0 4 0 (some 2) .ok)),
    .buffer (.store 8 5),.buffer (.clEnqueueWriteBuffer (some 1) (some 2) 0 1 8 .ok)] ++
  (([ClientAction.enqueue () (oneWord 7 1) true,.dma () .ok] ++ loadSteps () 0 7 1 ++
    launchSteps () 1 7 1).map HostAction.client) ++
  [.buffer (.clEnqueueReadBuffer (some 1) (some 2) 0 1 16 .ok)]

def HostOutcome.bytes : HostOutcome → List (List UInt8)
  | .buffer _ es => readsIn es
  | _ => []

def HostState.isIdle (s : HostState) : Bool :=
  match s.clients.phase () with
  | .idle => true
  | _ => false

theorem HostState.isIdle_iff {s : HostState} : s.isIdle = true ↔ s.clients.phase () = .idle := by
  unfold isIdle
  split <;> simp_all

theorem hostTrace_runs : (((hostSystem addingGpu accelerator₀).guarded untroubledStep).exec
    hostState₀ hostTrace).isSome := by
  decide +kernel

theorem runs_in_order_read : ∃ log s,
    (hostSystem addingGpu accelerator₀).RunWith HostUntroubled log s ∧
    (outcomes log).flatMap HostOutcome.bytes = [[13]] ∧
    (inOrderSystem addingGpu accelerator₀).Run (outcomes log) s.view := by
  have hrun := System.RunWith.of_guarded_exec (S := hostSystem addingGpu accelerator₀)
    (s := hostState₀) ⟨freshClients_init Unit 0,rfl,rfl⟩ hostTrace hostTrace_runs
    untroubledStep_sound
  refine ⟨_,_,hrun,by decide +kernel,runs_in_order hrun (HostState.isIdle_iff.mp ?_)⟩
  decide +kernel

end FpgaGpu.Umd
