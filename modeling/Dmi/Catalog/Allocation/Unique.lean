import Dmi.Catalog.Allocation.Order

/-!
# Which versions are returned twice

Two calls that claim one version at the same time see each other's rows and both try again. But
the row of a call that has returned may be collected as soon as its version is published, and a
call that read its floor before does not know: it claims the same version, finds its own row
alone, and returns the version a second time (`version_is_returned_twice`).

It takes a collection that runs ahead of such a call. As long as every collection deletes claims
behind the calls only (`CollectsBehind`), a version that is won stays claimed until every call
is past it (`Wins`), and all returned versions are different.
-/

namespace Dmi.Catalog

open Function List

variable {n : Nat} {cfg : Config} {s s' : Server n} {ag ag' : Nat → Agent}
variable {p p' : Nat → Option Act} {db db' : Db}

open Schedule in
/-- **A version is returned twice.** Writer 0 reads its floor and stalls. Writer 1 allocates
version 1, publishes it and collects its claim. Then writer 0 claims version 1 too. -/
theorem version_is_returned_twice : ∃ s : State oneHost, Reachable oneHost s ∧
    ¬ (s.world.returned.map (·.version)).Nodup := by
  obtain ⟨s, hs, hreturned⟩ := exists_steps_of_run (machine oneHost).init
    (Q := fun s => s.world.returned.map (·.version) = [1, 1])
    ([.start 0 .allocateVersion] ++ note 0 ++ ask 0 ++ ask 0 ++ firstVersion 1 100 ++
      collect 1 4 ++ claimVersion 0 103 6)
    (by decide +kernel)
  refine ⟨s, hs, ?_⟩
  rw [hreturned]
  decide

/-! ### Calls that are past a version -/

/-- The call does not return `v`, or it alone has claimed it already. -/
def Call.Past {β : Type} (v : Nat) : Call β → Prop
  | .floor _ f => v ≤ f
  | .claiming _ version _ => v < version
  | .claimed _ version _ => v < version
  | _ => True

variable {β : Type}

theorem Call.Past.anti {call : Call β} {v v' : Nat} (h : call.Past v') (hle : v ≤ v') :
    call.Past v := by
  cases call with
  | floor b f => exact Nat.le_trans hle h
  | claiming | claimed => exact Nat.lt_of_le_of_lt hle h
  | _ => trivial

theorem CallStep.past {now : Begin} {call call' : Call Begin} (h : CallStep db now call call')
    {v : Nat} (hv : v ≤ db.published) (hpast : call.Past v) : call'.Past v := by
  cases h with
  | same => exact hpast
  | head b highest heq => exact Nat.le_trans hv (Nat.le_max_right _ _)
  | acknowledged b v' x heq =>
    subst heq
    exact hpast
  | stop | start | claims | contested | alone => trivial

theorem Call.past_issue {call : Call Begin} {agent : Agent} (hforget : agent.call = call.forget)
    {a : Act} (hallowed : agent.Allowed a) {v : Nat} (h : call.Past v) : (call.issue a).Past v := by
  rcases Call.issue_cases hforget hallowed with heq | ⟨b, f, row, ⟨-, hcall⟩, hlt, heq⟩ <;>
    rw [heq]
  · exact h
  · rw [hcall] at h
    exact Nat.lt_of_le_of_lt h hlt

/-- When a collection deletes the claims at or below a version, every call is past it. -/
def CollectsBehind (w : World n) (e : Event n) : Prop :=
  ∀ sid writer published stage, e = .land sid →
    w.server.flights sid = some ⟨writer, .deleteClaims published, stage⟩ →
    ∀ c, (w.call c).Past published

/-! ### The claims that won -/

/-- The claim `x` won version `v`: its call has read it back alone, or has returned. -/
def World.Won (w : World n) (v : Nat) (x : Id) : Prop :=
  (∃ c b, w.call c = .sole b v x) ∨ ∃ r ∈ w.returned, r.version = v ∧ r.claimId = x

/-- The claim is about to win: it was acknowledged and is alone. -/
def World.Wins (w : World n) (v : Nat) (x : Id) : Prop :=
  (∃ c b, w.call c = .claimed b v x) ∧ (∃ r ∈ w.server.db.claims, r.version = v ∧ r.claimId = x) ∧
    ∀ r ∈ w.server.db.claims, r.version = v → r.claimId = x

structure Winners (w : World n) : Prop where
  stands : ∀ {v x}, w.Won v x → (∃ r ∈ w.server.db.claims, r.version = v ∧ r.claimId = x) ∨
    v ≤ w.server.db.published ∧ ∀ c, (w.call c).Past v
  unique : ∀ {v x y}, w.Won v x → w.Won v y → x = y

variable {w : World n}

theorem Winners.eq_of_wins (h : Winners w) {v : Nat} {x y : Id} (hx : w.Wins v x)
    (hy : w.Won v y) : y = x := by
  obtain ⟨⟨c, b, hcall⟩, -, honly⟩ := hx
  rcases h.stands hy with ⟨r, hr, hv, rfl⟩ | ⟨-, hpast⟩
  · exact honly r hr hv
  · have hlt := hpast c
    rw [hcall] at hlt
    exact absurd hlt (Nat.lt_irrefl v)

variable {w' : World n}

/-- The calls go on, and at most the claim of one call wins. -/
theorem Winners.step (h : Winners w) (hdb : w'.server.db = w.server.db)
    (hpast : ∀ c v, v ≤ w.server.db.published → (w.call c).Past v → (w'.call c).Past v)
    (hwon : ∀ v x, w'.Won v x → w.Won v x ∨ w.Wins v x) : Winners w' := by
  refine ⟨fun {v x} hx => ?_, fun {v x y} hx hy => ?_⟩
  · rw [hdb]
    rcases hwon v x hx with hx | hx
    · exact (h.stands hx).imp_right fun ⟨hle, hall⟩ => ⟨hle, fun c => hpast c v hle (hall c)⟩
    · exact .inl hx.2.1
  · rcases hwon v x hx with hx | hx <;> rcases hwon v y hy with hy | hy
    · exact h.unique hx hy
    · exact h.eq_of_wins hy hx
    · exact (h.eq_of_wins hx hy).symm
    · obtain ⟨r, hr, hv, rfl⟩ := hx.2.1
      exact hy.2.2 r hr hv

variable {c : Nat}

theorem CallStep.sole {now : Begin} {call' : Call Begin}
    (h : CallStep w.server.db now (w.call c) call') {b : Begin} {v : Nat} {x : Id}
    (hsole : call' = .sole b v x) : w.Won v x ∨ w.Wins v x := by
  cases h with
  | same => exact .inl (.inl ⟨c, b, hsole⟩)
  | alone b' v' x' hcall hrow honly =>
    cases hsole
    exact .inr ⟨⟨c, b, hcall⟩, hrow, honly⟩
  | _ => cases hsole

theorem World.won_of_record (h : Calls w ag p) {a : Act}
    (hp : p c = some a) {r : Returned} (hr : r ∈ w.record c a) : w.Won r.version r.claimId := by
  have hold : r ∈ w.returned → w.Won r.version r.claimId := fun hr => .inr ⟨r, hr, rfl, rfl⟩
  cases a with
  | allocated version =>
    obtain ⟨b, x, hcall⟩ := h.returning hp
    simp only [World.record, hcall] at hr
    rcases mem_append.mp hr with hr | hr
    · exact hold hr
    · obtain rfl := mem_singleton.mp hr
      exact .inl ⟨c, b, hcall⟩
  | _ => exact hold hr

theorem World.won_of_update {call : Call Begin} (hcall : w'.call = update w.call c call)
    (hsole : ∀ b v x, call = .sole b v x → w.Won v x ∨ w.Wins v x)
    (hreturned : ∀ r ∈ w'.returned, w.Won r.version r.claimId) (v : Nat) (x : Id)
    (h : w'.Won v x) : w.Won v x ∨ w.Wins v x := by
  rcases h with ⟨d, b, hd⟩ | ⟨r, hr, rfl, rfl⟩
  · rw [hcall] at hd
    by_cases hdc : d = c
    · subst hdc
      rw [update_self] at hd
      exact hsole b v x hd
    · rw [update_of_ne hdc] at hd
      exact .inl (.inl ⟨d, b, hd⟩)
  · exact .inl (hreturned r hr)

theorem World.past_update (w : World n) {call : Call Begin}
    (h : ∀ {v}, v ≤ w.server.db.published → (w.call c).Past v → call.Past v) (d v : Nat)
    (hv : v ≤ w.server.db.published)
    (hd : (w.call d).Past v) : (update w.call c call d).Past v := by
  by_cases hdc : d = c
  · subst hdc
    rw [update_self]
    exact h hv hd
  · rwa [update_of_ne hdc]

theorem World.won_returned (w : World n) : ∀ r ∈ w.returned, w.Won r.version r.claimId :=
  fun r hr => .inr ⟨r, hr, rfl, rfl⟩

theorem Server.db_of_evolve {e : Event n} (h : s.evolve cfg e = some s') :
    s'.db = s.db ∨ ∃ sid writer stmt host at_ effect, e = .land sid ∧
      s.flights sid = some ⟨writer, stmt, .admitted host at_ effect⟩ ∧
      s'.db = effect.apply s.db := by
  cases e with (simp only [Server.evolve] at h; repeat' (split at h <;> try cases h))
  | land sid => next hf _ => exact .inr ⟨sid, _, _, _, _, _, rfl, hf, rfl⟩
  | _ => exact .inl rfl

/-- A collection behind the calls takes no claim that a call could still find missing. -/
theorem Winners.evolve (h : Winners w) (hinv : PublishInv cfg w.server ag p) {e : Event n}
    (hbehind : CollectsBehind w e) (hs : w.server.evolve cfg e = some s') :
    Winners { w with server := s' } := by
  have hpublished := (hinv.claimsKept (.evolve s' (evolves_of_evolve hs))).published_le
  have hclaims : ∀ r ∈ w.server.db.claims, r ∈ s'.db.claims ∨
      r.version ≤ w.server.db.published ∧ ∀ c, (w.call c).Past r.version := by
    intro r hr
    rcases Server.db_of_evolve hs with
      hdb | ⟨sid, writer, stmt, host, at_, effect, rfl, hf, hdb⟩ <;> rw [hdb]
    · exact .inl hr
    · obtain ⟨db, hadmits⟩ := hinv.lease.traffic.admits hf
      cases hadmits with
      | claimVersion => exact .inl (mem_append_left _ hr)
      | deleteClaims published =>
        by_cases hle : r.version ≤ published
        · have hpast := hbehind sid writer published _ rfl hf
          exact .inr ⟨Nat.le_trans hle (hinv.bounds.claims ⟨_, hf⟩), fun c => (hpast c).anti hle⟩
        · exact .inl (mem_filter.mpr ⟨hr, decide_eq_true hle⟩)
      | _ => exact .inl hr
  refine ⟨fun {v x} hx => ?_, h.unique⟩
  rcases h.stands hx with ⟨r, hr, rfl, rfl⟩ | ⟨hle, hall⟩
  · rcases hclaims r hr with hr | ⟨hle, hall⟩
    · exact .inl ⟨r, hr, rfl, rfl⟩
    · exact .inr ⟨Nat.le_trans hle hpublished, hall⟩
  · exact .inr ⟨Nat.le_trans hle hpublished, hall⟩

theorem Winners.turn (h : Winners w) (hinv : PublishInv cfg w.server ag p)
    (hcalls : Calls w ag p) (ht : Turn cfg CollectsBehind w ag p w' ag' p') : Winners w' := by
  cases ht with
  | issue c a hidle hallowed =>
    have hdb : (w.issue c a).server.db = w.server.db := by
      cases a <;> rfl
    refine h.step hdb (w.past_update fun _ => ?_)
      (World.won_of_update rfl (fun b v x hsole => ?_) ?_)
    · exact Call.past_issue (hcalls.forget c) hallowed
    · rcases Call.issue_cases (hcalls.forget c) hallowed with heq | ⟨_, _, _, -, -, heq⟩
      · exact .inl (.inl ⟨c, b, heq.symm.trans hsole⟩)
      · cases heq.symm.trans hsole
    · exact w.won_returned
  | answer c a r s' hpending hr =>
    have hstep := hr.callStep w.begin_ (w.call c)
    have hrecord := fun r => World.won_of_record (r := r) hcalls hpending
    obtain ⟨drawnBy, rfl⟩ := hr.server
    exact h.step rfl (w.past_update hstep.past)
      (World.won_of_update rfl (fun b v x => hstep.sole) hrecord)
  | evolve e s' hG hs => exact h.evolve hinv hG hs
  | crash c =>
    exact h.step rfl (w.past_update fun _ _ => trivial)
      (World.won_of_update rfl nofun w.won_returned)

/-! ### The ids of claims -/

def Call.claimId? {β : Type} : Call β → Option Id
  | .claiming _ _ x | .claimed _ _ x | .sole _ _ x => some x
  | _ => none

theorem Call.claimId?_readBack {call : Call β} {version : Nat} {owners : Option (List Id)} {x : Id}
    (h : (call.readBack version owners).claimId? = some x) : call.claimId? = some x := by
  cases call with
  | claimed b v y =>
    cases owners with
    | none => cases h
    | some owners =>
      by_cases hsole : version = v ∧ owners ≠ [] ∧ ∀ owner ∈ owners, owner = y
      · rwa [show (Call.claimed b v y).readBack version (some owners) = .sole b v y from
          if_pos hsole] at h
      · rw [show (Call.claimed b v y).readBack version (some owners) = .begun b from
          if_neg hsole] at h
        cases h
  | _ => cases h

theorem Call.claimId?_complete {call : Call β} {b : β} {a : Act} {r : a.Res} {x : Id}
    (h : (call.complete b a r).claimId? = some x) : call.claimId? = some x := by
  unfold complete at h
  split at h
  · cases h
  · cases h
  · rename_i highest
    cases (highest : Option Nat) with
    | none => cases h
    | some m => cases hb : call.begin? <;> rw [hb] at h <;> cases h
  · rename_i published
    cases call <;> cases (published : Option Nat) <;> exact h
  · exact Call.claimId?_readBack h
  · rename_i ok
    cases call <;> cases (ok : Bool) <;> first | exact h | cases h
  · exact h

theorem Call.claimId?_issue {call : Call β} {a : Act} {x : Id}
    (h : (call.issue a).claimId? = some x) :
    call.claimId? = some x ∨ ∃ row, a = .write (.claimVersion row) ∧ row.claimId = x := by
  unfold issue at h
  split at h
  · split at h
    · exact .inr ⟨_, rfl, Option.some.inj h⟩
    · cases h
  · exact .inl h

/-- The ids of claims. -/
def claimIds : IdKind where
  used
    | .claimVersion row => some row.claimId
    | _ => none
  row db x := ∃ r ∈ db.claims, r.claimId = x
  fresh a := a.claimIds
  inUse a x := a.call.claimId? = some x
  row_apply := by
    rintro cfg db₀ db t stmt e x hadmits ⟨r, hr, hx⟩
    cases hadmits with
    | claimVersion row =>
      rcases List.mem_append.mp hr with hr | hr
      · exact .inl ⟨r, hr, hx⟩
      · obtain rfl := List.mem_singleton.mp hr
        exact .inr (congrArg some hx)
    | deleteClaims => exact .inl ⟨r, List.mem_of_mem_filter hr, hx⟩
    | _ => exact .inl ⟨r, hr, hx⟩
  own := by
    intro a stmt x hallowed hx
    cases stmt with
    | claimVersion row =>
      cases hx
      exact .inl hallowed.2.2.2.2
    | _ => cases hx
  fresh_start := by
    intro a stmt x hallowed hx
    cases stmt with
    | claimVersion row =>
      obtain ⟨hmem, hne⟩ := List.mem_filter.mp hx
      exact ⟨hmem, fun heq => absurd (Option.some.inj heq).symm (of_decide_eq_true hne)⟩
    | _ => exact ⟨hx, nofun⟩
  inUse_start := by
    intro a stmt x hallowed hx
    rcases Call.claimId?_issue hx with hx | ⟨row, heq, rfl⟩
    · exact .inl hx
    · cases heq
      exact .inr rfl
  fresh_uuid h := (List.mem_cons.mp h).symm
  fresh_finish := by
    intro a act r x hact hx
    cases act with
    | uuid => exact absurd rfl hact
    | _ => exact hx
  inUse_finish := Call.claimId?_complete
  fresh_reset h := h
  inUse_reset := nofun

/-- The ids of the returned claims are different, and spent. -/
structure Receipts (w : World n) (ag : Nat → Agent) : Prop where
  spent : ∀ r ∈ w.returned, Spent claimIds w.server ag r.claimId
  nodup : (w.returned.map (·.claimId)).Nodup

theorem Receipts.turn {G : World n → Event n → Prop} (h : Receipts w ag) (hcalls : Calls w ag p)
    (howned : Owned claimIds w.server ag)
    (ht : Turn cfg G w ag p w' ag' p') : Receipts w' ag' := by
  have hspent : ∀ r ∈ w.returned, Spent claimIds w'.server ag' r.claimId :=
    fun r hr => (h.spent r hr).change ht.change
  by_cases hreturned : w'.returned = w.returned
  · refine ⟨?_, ?_⟩ <;> rw [hreturned]
    · exact hspent
    · exact h.nodup
  · cases ht with
    | issue | evolve | crash => exact absurd rfl hreturned
    | answer c a r s' hpending hr =>
      cases hr with
      | allocated version =>
        obtain ⟨b, x, hcall⟩ := hcalls.returning hpending
        have hinUse : claimIds.inUse (ag c) x := by
          show (ag c).call.claimId? = some x
          rw [hcalls.forget c, hcall]
          rfl
        have hrecord : w.record c (.allocated version) = w.returned ++ [⟨version, x, b⟩] := by
          simp only [World.record, hcall]
        refine ⟨?_, ?_⟩ <;> show _ <;> rw [hrecord]
        · intro r hr
          rcases mem_append.mp hr with hr | hr
          · exact hspent r hr
          · obtain rfl := mem_singleton.mp hr
            exact howned.spent hinUse (fun _ hx => hx) (by rintro ⟨⟩)
        · rw [map_append, nodup_append]
          refine ⟨h.nodup, nodup_singleton _, ?_⟩
          intro y hy z hz heq
          obtain ⟨r, hr, rfl⟩ := mem_map.mp hy
          obtain rfl := mem_singleton.mp hz
          exact (h.spent r hr).not_inUse c (heq ▸ hinUse)
      | _ => exact absurd rfl hreturned

/-! ### Every run -/

/-- What holds in every state that is reached with collections behind the calls. -/
structure Conf.UniqueInv {cl : Cluster} (g : Conf cl) : Prop where
  calls : g.CallInv
  winners : Winners g.world
  owned : Owned claimIds g.world.server g.agent
  receipts : Receipts g.world g.agent

theorem Conf.UniqueInv.init (cl : Cluster) : Conf.UniqueInv ((machine cl).conf protocol) where
  calls := CallInv.init cl
  winners := by
    have hnone : ∀ {v x}, ¬ ((machine cl).conf protocol).world.Won v x := by
      rintro v x (⟨c, b, hcall⟩ | ⟨r, hr, -⟩)
      · cases hcall
      · cases hr
    exact ⟨fun h => absurd h hnone, fun h => absurd h hnone⟩
  owned := ⟨nofun, nofun, fun h => absurd h (Server.not_sent_init _), nofun, nofun, nofun, nofun⟩
  receipts := ⟨nofun, nodup_nil⟩

theorem Conf.UniqueInv.move {cl : Cluster} {g g' : Conf cl} (h : g.UniqueInv)
    (hmove : Move cl CollectsBehind g g') : g'.UniqueInv where
  calls := h.calls.move hmove
  winners := h.winners.turn h.calls.publish h.calls.calls (Move.turn hmove)
  owned := h.owned.change h.calls.publish.lease.traffic (Move.change hmove)
  receipts := h.receipts.turn h.calls.calls h.owned (Move.turn hmove)

/-- **If collections stay behind the calls, no version is returned by two calls.** -/
theorem versions_are_unique {cl : Cluster} {s : State cl}
    (hs : Proc.Reaches (machine cl) CollectsBehind (machine cl).init s) :
    (s.world.returned.map (·.version)).Nodup := by
  obtain ⟨g, htracks, hinv⟩ := Proc.reaches_invariant (machine_sound cl) (Conf.UniqueInv.init cl)
    (fun _ _ hinv hmove => hinv.move hmove) hs
  rw [htracks.world]
  have hnodup := hinv.receipts.nodup
  refine hnodup.of_map.map_on fun r hr r' hr' hv => ?_
  refine inj_on_of_nodup_map hnodup hr hr' ?_
  exact hinv.winners.unique (.inr ⟨r, hr, rfl, rfl⟩) (.inr ⟨r', hr', hv.symm, rfl⟩)

theorem call_step {cl : Cluster} {s s' : State cl}
    {l : Proc.Label (Choice cl.hosts) (Event cl.hosts) Task}
    (h : Proc.step (machine cl) s l = some s') {c : Nat} (hc : l.client? ≠ some c) :
    s'.world.call c = s.world.call c := by
  have hne {d : Nat} (hd : l.client? = some d) : c ≠ d := fun heq => hc (heq ▸ hd)
  cases l with
  | start | park | finish =>
    rw [Proc.step] at h
    split at h <;> cases h
    rfl
  | resume =>
    rw [Proc.step] at h
    split at h
    · obtain ⟨k, -, rfl⟩ := Option.map_eq_some_iff.mp h
      rfl
    · cases h
  | issue =>
    rw [Proc.step] at h
    split at h <;> cases h
    exact update_of_ne (hne rfl) ..
  | complete =>
    rw [Proc.step] at h
    split at h
    · obtain ⟨x, hx, rfl⟩ := Option.map_eq_some_iff.mp h
      obtain ⟨y, -, rfl⟩ := Option.map_eq_some_iff.mp hx
      exact update_of_ne (hne rfl) ..
    · cases h
  | crash =>
    cases h
    exact update_of_ne (hne rfl) ..
  | evolve =>
    obtain ⟨w, hw, rfl⟩ := Option.map_eq_some_iff.mp h
    obtain ⟨server, -, rfl⟩ := Option.map_eq_some_iff.mp hw
    rfl

instance (v : Nat) (call : Call β) : Decidable (call.Past v) := by
  cases call <;> unfold Call.Past <;> infer_instance

/-- The event does not collect a claim that a call of the first two writers may still meet. -/
def behindTwo (w : World n) : Event n → Bool
  | .land sid =>
    match w.server.flights sid with
    | some ⟨_, .deleteClaims published, _⟩ =>
      decide ((w.call 0).Past published ∧ (w.call 1).Past published)
    | _ => true
  | _ => true

theorem collectsBehind_of_behindTwo {w : World n} (hidle : ∀ c, w.call (c + 2) = .idle)
    {e : Event n} (h : behindTwo w e = true) : CollectsBehind w e := by
  rintro sid writer published stage rfl hf c
  simp only [behindTwo, hf, decide_eq_true_eq] at h
  match c with
  | 0 => exact h.1
  | 1 => exact h.2
  | c + 2 =>
    rw [hidle c]
    trivial

open Schedule in
/-- Both writers read the same floor; the second finds its claim contested and tries again. The
claims of the first version are collected before it claims the next. -/
theorem versions_are_unique_contested : ∃ s : State oneHost,
    Proc.Reaches (machine oneHost) CollectsBehind (machine oneHost).init s ∧
    (s.world.returned.map (·.version) = [1, 2] ∧ s.world.server.db.claims.map (·.version) = [2]) ∧
    (s.world.returned.map (·.version)).Nodup := by
  let labels : Labels := [.start 0 .allocateVersion] ++ note 0 ++ ask 0 ++ ask 0 ++
    firstVersion 1 100 ++ draw 0 103 ++ clock 0 ++ put 0 4 ++ ask 0 ++ ask 0 ++ ask 0 ++
    draw 0 0 ++ collect 1 5 ++ claimVersion 0 104 7
  have hwriters : ∀ l ∈ labels, l.client?.all (· < 2) = true := by decide
  have hkeeps : ∀ l ∈ labels, ∀ s s', (∀ c, s.world.call (c + 2) = .idle) →
      Proc.step (machine oneHost) s l = some s' → ∀ c, s'.world.call (c + 2) = .idle := by
    intro l hl s s' hidle hstep c
    refine (call_step hstep fun hc => ?_).trans (hidle c)
    simpa [hc] using hwriters l hl
  obtain ⟨s, hs, hreturned⟩ := Proc.exists_reaches_of_run (machine oneHost) (machine oneHost).init
    (Q := fun s => s.world.returned.map (·.version) = [1, 2] ∧
      s.world.server.db.claims.map (·.version) = [2]) _ labels hkeeps
    (fun s e hidle => collectsBehind_of_behindTwo hidle) (fun _ => rfl) (by decide +kernel)
  exact ⟨s, hs, hreturned, versions_are_unique hs⟩

end Dmi.Catalog
