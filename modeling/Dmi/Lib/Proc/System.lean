import Dmi.Lib.Proc.Prog
import Mathlib.Logic.Function.Basic
import Mathlib.Logic.Relation

/-!
# Clients of one server, interleaved, and the refinement to their protocol

`Machine` is a server (its world, what issuing and answering an act does, what it does on its
own) together with the operations its clients may call. `step` is one step of the whole
system: any client may start an operation, issue an act, receive an answer, give up its lock
or die, and the server may move, all in any order. It is a function of the label, so a given
schedule can be run.

The protocol level forgets the programs: a `Conf` has the world, one automaton state per
client and the act each client waits for, and a `Move` lets a client issue anything its
automaton allows. `step_tracks` is the refinement: if every operation obeys the protocol, each
step of the system is a move of the protocol or leaves the configuration alone. So an
invariant of the moves holds in every state the programs can reach (`reaches_invariant`).
-/

namespace Dmi.Proc

open Function List

/-- A server with its clients' operations. A `Choice` resolves how an act is answered, an
`Event` is a step the server takes on its own. -/
structure Machine (Act : Type) (Res : Act → Type) (L W Choice Event Task : Type) where
  world : W
  loc : L
  issue : W → Nat → Act → Option W
  complete : W → Nat → (a : Act) → Choice → Option (Res a × W)
  evolve : W → Event → Option W
  crash : W → Nat → W
  body : Task → L → Prog Act Res L L

inductive Running (Act : Type) (Res : Act → Type) (L : Type) where
  | idle
  | active (p : Prog Act Res L L)
  | waiting (a : Act) (k : Res a → Prog Act Res L L)

/-- One client: its local state, the thread that has the lock, and the threads that gave the
lock up in the middle of an operation. -/
structure Client (Act : Type) (Res : Act → Type) (L : Type) where
  loc : L
  running : Running Act Res L
  parked : List (L → Prog Act Res L L)

structure System (Act : Type) (Res : Act → Type) (L W : Type) where
  world : W
  client : Nat → Client Act Res L

inductive Label (Choice Event Task : Type) where
  | start (c : Nat) (t : Task)
  | resume (c i : Nat)
  | issue (c : Nat)
  | complete (c : Nat) (choice : Choice)
  | park (c : Nat)
  | finish (c : Nat)
  | crash (c : Nat)
  | evolve (e : Event)

/-- Whose step it is. -/
def Label.client? {Choice Event Task : Type} : Label Choice Event Task → Option Nat
  | .start c _ | .resume c _ | .issue c | .complete c _ | .park c | .finish c | .crash c => some c
  | .evolve _ => none

variable {Act : Type} {Res : Act → Type} {L W Choice Event Task A : Type}
variable (M : Machine Act Res L W Choice Event Task)

def Machine.newClient : Client Act Res L := ⟨M.loc, .idle, []⟩

def Machine.init : System Act Res L W := ⟨M.world, fun _ => M.newClient⟩

def System.set (s : System Act Res L W) (c : Nat) (cl : Client Act Res L) :
    System Act Res L W :=
  { s with client := update s.client c cl }

def step (s : System Act Res L W) :
    Label Choice Event Task → Option (System Act Res L W)
  | .start c t =>
    match s.client c with
    | ⟨l, .idle, parked⟩ => some (s.set c ⟨l, .active (M.body t l), parked⟩)
    | _ => none
  | .resume c i =>
    match s.client c with
    | ⟨l, .idle, parked⟩ =>
      parked[i]?.map fun k => s.set c ⟨l, .active (k l), parked.eraseIdx i⟩
    | _ => none
  | .issue c =>
    match s.client c with
    | ⟨l, .active (.act a k), parked⟩ =>
      (M.issue s.world c a).map fun w => { s.set c ⟨l, .waiting a k, parked⟩ with world := w }
    | _ => none
  | .complete c choice =>
    match s.client c with
    | ⟨l, .waiting a k, parked⟩ =>
      (M.complete s.world c a choice).map fun x =>
        { s.set c ⟨l, .active (k x.1), parked⟩ with world := x.2 }
    | _ => none
  | .park c =>
    match s.client c with
    | ⟨_, .active (.yield l k), parked⟩ => some (s.set c ⟨l, .idle, parked ++ [k]⟩)
    | _ => none
  | .finish c =>
    match s.client c with
    | ⟨_, .active (.ret l), parked⟩ => some (s.set c ⟨l, .idle, parked⟩)
    | _ => none
  | .crash c => some { s.set c M.newClient with world := M.crash s.world c }
  | .evolve e => (M.evolve s.world e).map fun w => { s with world := w }

/-- Run a whole schedule, as long as the server's own events pass the test. -/
def run (s : System Act Res L W) (ls : List (Label Choice Event Task))
    (ok : W → Event → Bool := fun _ _ => true) : Option (System Act Res L W) :=
  match ls with
  | [] => some s
  | .evolve e :: ls =>
    if ok s.world e then (step M s (.evolve e)).bind fun s' => run s' ls ok else none
  | l :: ls => (step M s l).bind fun s' => run s' ls ok

/-- One step whose server events all meet `G`. -/
def Step (G : W → Event → Prop) (s s' : System Act Res L W) : Prop :=
  ∃ l, (∀ e, l = .evolve e → G s.world e) ∧ step M s l = some s'

abbrev Reaches (G : W → Event → Prop) : System Act Res L W → System Act Res L W → Prop :=
  Relation.ReflTransGen (Step M G)

variable {G : W → Event → Prop} {ok : W → Event → Bool}

/-- The test may rest on what the labels of the schedule keep. -/
theorem reaches_of_run {J : System Act Res L W → Prop} {ls : List (Label Choice Event Task)}
    (hkeeps : ∀ l ∈ ls, ∀ s s', J s → step M s l = some s' → J s')
    (hok : ∀ s e, J s → ok s.world e = true → G s.world e) :
    ∀ {s s' : System Act Res L W}, J s → run M s ls ok = some s' → Reaches M G s s' := by
  induction ls with
  | nil =>
    intro s s' _ h
    obtain rfl : s = s' := Option.some.inj h
    exact .refl
  | cons l ls ih =>
    intro s s' hJ h
    obtain ⟨hl, hls⟩ := forall_mem_cons.mp hkeeps
    obtain ⟨t, ht, hJ', hrun⟩ : ∃ t, Step M G s t ∧ J t ∧ run M t ls ok = some s' := by
      unfold run at h
      split at h
      · rename_i heq
        cases heq
      · rename_i e ls' heq
        cases heq
        split at h
        · rename_i hpass
          obtain ⟨t, ht, hrun⟩ := Option.bind_eq_some_iff.mp h
          refine ⟨t, ⟨.evolve e, fun e' he => ?_, ht⟩, hl s t hJ ht, hrun⟩
          cases he
          exact hok _ _ hJ hpass
        · cases h
      · rename_i l' ls' hnot heq
        cases heq
        obtain ⟨t, ht, hrun⟩ := Option.bind_eq_some_iff.mp h
        exact ⟨t, ⟨l, fun e he => absurd he (hnot e), ht⟩, hl s t hJ ht, hrun⟩
    exact .head ht (ih hls hJ' hrun)

/-- A schedule that can be run to the end leads to a state it reaches. -/
theorem exists_reaches_of_run (s₀ : System Act Res L W) {Q : System Act Res L W → Prop}
    [DecidablePred Q] (J : System Act Res L W → Prop) (ls : List (Label Choice Event Task))
    (hkeeps : ∀ l ∈ ls, ∀ s s', J s → step M s l = some s' → J s')
    (hok : ∀ s e, J s → ok s.world e = true → G s.world e) (hJ : J s₀)
    (h : (run M s₀ ls ok).any (fun s => decide (Q s)) = true) : ∃ s, Reaches M G s₀ s ∧ Q s := by
  obtain ⟨s, hrun, hs⟩ := (Option.any_eq_true _ _).mp h
  exact ⟨s, reaches_of_run M hkeeps hok hJ hrun, of_decide_eq_true hs⟩

/-! ### The protocol level -/

/-- What is left of a system when the programs are forgotten. -/
structure Conf (W A Act : Type) where
  world : W
  agent : Nat → A
  pending : Nat → Option Act

variable (P : Protocol Act Res L A)

def Machine.conf : Conf W A Act := ⟨M.world, fun _ => P.init, fun _ => none⟩

inductive Move (G : W → Event → Prop) (g : Conf W A Act) : Conf W A Act → Prop
  | issue (c : Nat) (a : Act) (w : W) (hidle : g.pending c = none)
      (hallowed : P.allowed (g.agent c) a) (hw : M.issue g.world c a = some w) :
      Move G g ⟨w, update g.agent c (P.start (g.agent c) a), update g.pending c (some a)⟩
  | complete (c : Nat) (a : Act) (choice : Choice) (r : Res a) (w : W)
      (hpending : g.pending c = some a) (hw : M.complete g.world c a choice = some (r, w)) :
      Move G g ⟨w, update g.agent c (P.finish (g.agent c) a r), update g.pending c none⟩
  | evolve (e : Event) (w : W) (hG : G g.world e) (hw : M.evolve g.world e = some w) :
      Move G g { g with world := w }
  | crash (c : Nat) :
      Move G g ⟨M.crash g.world c, update g.agent c (P.reset (g.agent c)),
        update g.pending c none⟩

/-- Every operation obeys the protocol, whenever it is started. -/
structure Machine.Sound : Prop where
  init : P.fits M.loc P.init
  reset : ∀ s, P.fits M.loc (P.reset s)
  body : ∀ t s l, P.fits l s → Obeys P s (M.body t l) fun s' l' => P.fits l' s'

/-! ### The refinement -/

/-- The thread that has the lock goes on as the automaton state `s` allows. -/
def Running.Ok (l : L) (s : A) (pending : Option Act) : Running Act Res L → Prop
  | .idle => pending = none ∧ P.fits l s
  | .active p => pending = none ∧ Obeys P s p fun s' l' => P.fits l' s'
  | .waiting a k =>
    pending = some a ∧ ∀ r, Obeys P (P.finish s a r) (k r) fun s' l' => P.fits l' s'

/-- A thread without the lock goes on rightly from any later state. -/
def ParkedOk (s : A) (k : L → Prog Act Res L L) : Prop :=
  ∀ s' l', P.later s s' → P.fits l' s' → Obeys P s' (k l') fun s' l' => P.fits l' s'

structure Client.Ok (cl : Client Act Res L) (s : A) (pending : Option Act) : Prop where
  running : cl.running.Ok P cl.loc s pending
  parked : ∀ k ∈ cl.parked, ParkedOk P s k

structure Tracks (s : System Act Res L W) (g : Conf W A Act) : Prop where
  world : s.world = g.world
  client : ∀ c, (s.client c).Ok P (g.agent c) (g.pending c)

variable {M P}

theorem ParkedOk.later {s t : A} {k : L → Prog Act Res L L} (h : ParkedOk P s k)
    (hst : P.later s t) : ParkedOk P t k :=
  fun s' l' hs hl => h s' l' (P.later_trans hst hs) hl

variable {s : System Act Res L W} {g : Conf W A Act} {cl : Client Act Res L}

theorem Tracks.set (h : Tracks P s g) {w : W} {c : Nat} {a : A} {p : Option Act}
    (hcl : cl.Ok P a p) :
    Tracks P { s.set c cl with world := w }
      ⟨w, update g.agent c a, update g.pending c p⟩ := by
  refine ⟨rfl, fun d => ?_⟩
  by_cases hd : d = c
  · subst hd
    simpa [System.set] using hcl
  · simpa [System.set, hd] using h.client d

theorem Tracks.keep (h : Tracks P s g) {c : Nat}
    (hcl : cl.Ok P (g.agent c) (g.pending c)) : Tracks P (s.set c cl) g := by
  refine ⟨h.world, fun d => ?_⟩
  by_cases hd : d = c
  · subst hd
    simpa [System.set] using hcl
  · simpa [System.set, hd] using h.client d

theorem tracks_init (hM : M.Sound P) : Tracks P M.init (M.conf P) :=
  ⟨rfl, fun _ => ⟨⟨rfl, hM.init⟩, fun _ hk => absurd hk not_mem_nil⟩⟩

/-- **Each step of the system is a move of the protocol, or no move at all.** -/
theorem step_tracks (hM : M.Sound P) {s' : System Act Res L W} (h : Tracks P s g)
    (hs : Step M G s s') : ∃ g', (g' = g ∨ Move M P G g g') ∧ Tracks P s' g' := by
  obtain ⟨lbl, hG, hs⟩ := hs
  cases lbl with (simp only [step] at hs; try (split at hs <;> try cases hs))
  | start c t =>
    rename_i heq
    have hc := heq ▸ h.client c
    refine ⟨g, .inl rfl, h.keep ⟨⟨hc.running.1, ?_⟩, hc.parked⟩⟩
    exact hM.body t _ _ hc.running.2
  | resume c i =>
    rename_i parked heq
    have hc := heq ▸ h.client c
    obtain ⟨k, hk, rfl⟩ := Option.map_eq_some_iff.mp hs
    have hmem : k ∈ parked := mem_of_getElem? hk
    refine ⟨g, .inl rfl, h.keep ⟨⟨hc.running.1, ?_⟩, fun k' hk' => ?_⟩⟩
    · exact hc.parked k hmem _ _ (P.later_refl _) hc.running.2
    · exact hc.parked k' (mem_of_mem_eraseIdx hk')
  | issue c =>
    rename_i a k parked heq
    have hc := heq ▸ h.client c
    obtain ⟨w, hw, rfl⟩ := Option.map_eq_some_iff.mp hs
    obtain ⟨hnone, hallowed, hk⟩ := hc.running
    refine ⟨_, .inr (.issue c a w hnone hallowed (h.world ▸ hw)), h.set ⟨⟨rfl, hk⟩, ?_⟩⟩
    exact fun k' hk' => (hc.parked k' hk').later (P.later_start _ a)
  | complete c choice =>
    rename_i a k parked heq
    have hc := heq ▸ h.client c
    obtain ⟨⟨r, w⟩, hw, rfl⟩ := Option.map_eq_some_iff.mp hs
    obtain ⟨hpending, hk⟩ := hc.running
    refine ⟨_, .inr (.complete c a choice r w hpending (h.world ▸ hw)), h.set ⟨⟨rfl, hk r⟩, ?_⟩⟩
    exact fun k' hk' => (hc.parked k' hk').later (P.later_finish _ a r)
  | park c =>
    rename_i heq
    have hc := heq ▸ h.client c
    obtain ⟨hnone, hfits, hk⟩ := hc.running
    refine ⟨g, .inl rfl, h.keep ⟨⟨hnone, hfits⟩, fun k' hk' => ?_⟩⟩
    rcases mem_append.mp hk' with hk' | hk'
    · exact hc.parked k' hk'
    · obtain rfl := mem_singleton.mp hk'
      exact hk
  | finish c =>
    rename_i heq
    have hc := heq ▸ h.client c
    exact ⟨g, .inl rfl, h.keep ⟨hc.running, hc.parked⟩⟩
  | crash c =>
    cases hs
    refine ⟨_, .inr (.crash c), ?_⟩
    rw [← h.world]
    exact h.set ⟨⟨rfl, hM.reset _⟩, fun _ hk => absurd hk not_mem_nil⟩
  | evolve e =>
    obtain ⟨w, hw, rfl⟩ := Option.map_eq_some_iff.mp hs
    exact ⟨_, .inr (.evolve e w (h.world ▸ hG e rfl) (h.world ▸ hw)), rfl, h.client⟩

variable {I : Conf W A Act → Prop}

section

variable (hM : M.Sound P) (hinit : I (M.conf P)) (hmove : ∀ g g', I g → Move M P G g g' → I g')
include hM hinit hmove

/-- **An invariant of the protocol's moves holds in every reachable state of the system.** -/
theorem reaches_invariant (hs : Reaches M G M.init s) : ∃ g, Tracks P s g ∧ I g := by
  induction hs with
  | refl => exact ⟨_, tracks_init hM, hinit⟩
  | tail _ hstep ih =>
    obtain ⟨g, ht, hI⟩ := ih
    obtain ⟨g', hg, ht'⟩ := step_tracks hM ht hstep
    refine ⟨g', ht', ?_⟩
    rcases hg with rfl | hg
    · exact hI
    · exact hmove g g' hI hg

/-- **What every move keeps, every run keeps.** If each move from a configuration with the
invariant preserves `R`, then `R` is carried from any reachable state to all later ones. -/
theorem reaches_carries {R : W → Prop}
    (hR : ∀ g g', I g → Move M P G g g' → R g.world → R g'.world) {s' : System Act Res L W}
    (hs : Reaches M G M.init s) (hs' : Reaches M G s s')
    (h : R s.world) : R s'.world := by
  induction hs' with
  | refl => exact h
  | tail hprev hstep ih =>
    obtain ⟨g, ht, hI⟩ := reaches_invariant hM hinit hmove (hs.trans hprev)
    obtain ⟨g', hg, ht'⟩ := step_tracks hM ht hstep
    rw [ht.world] at ih
    rw [ht'.world]
    rcases hg with rfl | hg
    · exact ih
    · exact hR g g' hI hg ih

end

end Dmi.Proc
