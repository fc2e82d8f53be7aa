import Dmi.Objects.Protocol

/-!
# What becomes of an object that was reported stored

Any number of calls run against one object store, their requests interleaved in any order. A call
looks at its key before it stores, but the store has no conditional PUT: between the two another
call may store an object, which is then replaced, or deleted if the late call finds that its stream
was not the pack.

That is all that can happen (`reported_object_stays`). A request replaces or deletes an object only
if the last HEAD of its call found the key empty, before that object was stored. So when a call has
reported success, its pack is under the key, or such a request of another call has met an object of
that size and checksum.
-/

namespace Dmi.Objects

open List Function

open Native (lit)
open Proc (Prog Pool Protocol Obeys)

variable {ι : Type} {task : ι → Task}

/-- The object under the key is the pack. -/
def Holds (w : World ι) (c : Claim) : Prop := ∃ o ∈ w.objects c.key, c.Carries o.bytes

instance (w : World ι) (c : Claim) : Decidable (Holds w c) :=
  inferInstanceAs (Decidable (∃ o ∈ w.objects c.key, c.Carries o.bytes))

/-- A PUT or a DELETE of the call. -/
def Event.Touches (d : ι) (e : Event ι) : Prop := e = .deleted d ∨ ∃ o, e = .stored d o

/-- The answer to a HEAD of the call. -/
def Event.Looks (d : ι) (e : Event ι) : Prop := e = .empty d ∨ e = .found d

/-- The last HEAD of the call found no object; what happened since. -/
def LastEmpty (log : List (Event ι)) (d : ι) (since : List (Event ι)) : Prop :=
  .empty d :: since <:+ log ∧ ∀ e ∈ since, ¬ e.Looks d

/-- The object was stored under the key of the call after the last HEAD of the call, which found
none. -/
def Unseen (task : ι → Task) (log : List (Event ι)) (d : ι) (o : Object) : Prop :=
  ∃ since x, LastEmpty log d since ∧ (task x).claim.key = (task d).claim.key ∧ .stored x o ∈ since

/-- Another call put or deleted when an object that passes for the pack was stored unseen by it. -/
def Overtaken (task : ι → Task) (log : List (Event ι)) (a : ι) : Prop :=
  ∃ d o e before, d ≠ a ∧ (task d).claim.key = (task a).claim.key ∧
    (task a).claim.Passes o.head ∧ e.Touches d ∧ before ++ [e] <+: log ∧ Unseen task before d o

theorem Overtaken.append {log : List (Event ι)} {a : ι} (h : Overtaken task log a)
    (es : List (Event ι)) : Overtaken task (log ++ es) a := by
  obtain ⟨d, o, e, before, hne, hd, hpasses, he, hlog, hunseen⟩ := h
  exact ⟨d, o, e, before, hne, hd, hpasses, he, hlog.trans (prefix_append _ _), hunseen⟩

theorem LastEmpty.append {log since es : List (Event ι)} {d : ι} (h : LastEmpty log d since)
    (hes : ∀ e ∈ es, ¬ e.Looks d) : LastEmpty (log ++ es) d (since ++ es) := by
  obtain ⟨⟨before, rfl⟩, hsince⟩ := h
  exact ⟨⟨before, by simp⟩, forall_mem_append.mpr ⟨hsince, hes⟩⟩

/-! ### The invariant -/

/-- The call may store or delete. -/
def Phase.Armed : Phase → Prop
  | .free _ | .stored false => True
  | .looking | .stored true | .passed | .verified => False

/-- The last HEAD of the call found none, and an object under its key was stored since. -/
def Late (task : ι → Task) (w : World ι) (d : ι) : Prop :=
  ∃ since, LastEmpty w.log d since ∧ ∀ o ∈ w.objects (task d).claim.key,
    ∃ x, (task x).claim.key = (task d).claim.key ∧ .stored x o ∈ since

theorem Late.unseen {w : World ι} {d : ι} (h : Late task w d) {o : Object}
    (ho : w.objects (task d).claim.key = some o) : Unseen task w.log d o := by
  obtain ⟨since, hlast, hstored⟩ := h
  obtain ⟨x, hx, hmem⟩ := hstored o ho
  exact ⟨since, x, hlast, hx, hmem⟩

/-- There is an object that passes for the pack of the call, and is the pack if the call is done;
or the call was overtaken. -/
def Kept (task : ι → Task) (w : World ι) (a : ι) (s : Phase) : Prop :=
  (∃ o ∈ w.objects (task a).claim.key, (task a).claim.Passes o.head ∧
    (s.Done → (task a).claim.Carries o.bytes)) ∨ Overtaken task w.log a

structure Inv (task : ι → Task) (w : World ι) (agent : ι → Phase) : Prop where
  late : ∀ d, (agent d).Armed → Late task w d
  kept : ∀ a, agent a = .passed ∨ (agent a).Done → Kept task w a (agent a)

theorem metadata_checksum (t : Task) :
    t.claim.metadata.get? (lit "dmi-sha256") = some t.claim.checksum := by
  cases t with
  | native cfg p =>
    rfl
  | python storeId attempts pack key =>
    rfl

section Steps

variable [DecidableEq ι] {w w' : World ι} {agent : ι → Phase} {i : ι}

section

variable (h : Inv task w agent)
include h

/-- A request that changes no object. -/
theorem Inv.quiet (hobjects : w'.objects = w.objects)
    (hlog : w'.log = w.log ∨ ∃ e, e.Looks i ∧ w'.log = w.log ++ [e]) {s : Phase}
    (hlate : s.Armed → Late task w' i) (hkept : s = .passed ∨ s.Done → Kept task w' i s) :
    Inv task w' (update agent i s) := by
  obtain ⟨es, hes, hlog⟩ : ∃ es, (∀ e ∈ es, e.Looks i) ∧ w'.log = w.log ++ es := by
    rcases hlog with hlog | ⟨e, he, hlog⟩
    · exact ⟨[], fun _ he => absurd he not_mem_nil, hlog.trans (append_nil _).symm⟩
    · exact ⟨[e], fun _ h => (mem_singleton.mp h) ▸ he, hlog⟩
  constructor
  · intro d hd
    by_cases hdi : d = i
    · subst hdi
      rw [update_self] at hd
      exact hlate hd
    · rw [update_of_ne hdi] at hd
      obtain ⟨since, hlast, hstored⟩ := h.late d hd
      rw [Late, hobjects, hlog]
      refine ⟨since ++ es, hlast.append fun e he hlooks => ?_, fun o ho => ?_⟩
      · rcases hlooks with rfl | rfl <;> rcases hes _ he with h | h <;> cases h <;> exact hdi rfl
      · obtain ⟨x, hx, hmem⟩ := hstored o ho
        exact ⟨x, hx, mem_append_left _ hmem⟩
  · intro a ha
    by_cases hai : a = i
    · subst hai
      rw [update_self] at ha ⊢
      exact hkept ha
    · rw [update_of_ne hai] at ha ⊢
      rw [Kept, hobjects, hlog]
      exact (h.kept a ha).imp_right fun hover => hover.append es

/-- A call that gives up what it has found out. -/
theorem Inv.looking : Inv task w (update agent i .looking) := by
  refine h.quiet rfl (.inl rfl) (fun harmed => ?_) fun hs => ?_
  · exact harmed.elim
  · rcases hs with hs | hs | hs <;> cases hs

/-- A PUT or a DELETE of a call that may do so: the object that it replaces is one that the call has
not seen. -/
theorem Inv.touch {key : Bytes} (hkey : key = (task i).claim.key)
    (harmed : (agent i).Armed) {object : Option Object} {e : Event ι} (he : e.Touches i)
    (hevent : ∀ o ∈ object, e = .stored i o) {staged : ι → Option Bytes} {s : Phase}
    (hs : s ≠ .passed)
    (hkept : s.Done → Kept task ⟨update w.objects key object, staged, w.log ++ [e]⟩ i s) :
    Inv task ⟨update w.objects key object, staged, w.log ++ [e]⟩
      (update agent i s) := by
  subst hkey
  have hlate : ∀ d, (agent d).Armed →
      Late task ⟨update w.objects (task i).claim.key object, staged, w.log ++ [e]⟩ d := by
    intro d hd
    obtain ⟨since, hlast, hstored⟩ := h.late d hd
    refine ⟨since ++ [e], hlast.append fun e' he' hlooks => ?_, fun o ho => ?_⟩
    · rw [mem_singleton.mp he'] at hlooks
      rcases he with rfl | ⟨o, rfl⟩ <;> rcases hlooks with h | h <;> cases h
    by_cases hd : (task d).claim.key = (task i).claim.key
    · simp only [hd, update_self] at ho
      rw [hevent o ho]
      exact ⟨i, hd.symm, mem_append_right _ (mem_singleton_self _)⟩
    · simp only [update_of_ne hd] at ho
      obtain ⟨x, hx, hmem⟩ := hstored o ho
      exact ⟨x, hx, mem_append_left _ hmem⟩
  constructor
  · intro d hd
    by_cases hdi : d = i
    · subst hdi
      exact hlate d harmed
    · rw [update_of_ne hdi] at hd
      exact hlate d hd
  · intro a ha
    by_cases hai : a = i
    · subst hai
      rw [update_self] at ha ⊢
      exact hkept (ha.resolve_left hs)
    · rw [update_of_ne hai] at ha ⊢
      rcases h.kept a ha with ⟨o, ho, hpasses, hdone⟩ | hover
      · by_cases hkey : (task a).claim.key = (task i).claim.key
        · exact .inr ⟨i, o, e, w.log, fun h => hai h.symm, hkey.symm, hpasses, he, prefix_rfl,
            (h.late i harmed).unseen (hkey ▸ ho)⟩
        · refine .inl ⟨o, ?_, hpasses, hdone⟩
          simp only [update_of_ne hkey]
          exact ho
      · exact .inr (hover.append [e])

theorem Inv.head :
    Inv task (w.serveHead i (task i).claim.key).2 (update agent i
      ((task i).claim.afterHead (agent i) (w.serveHead i (task i).claim.key).1)) := by
  cases hobject : w.objects (task i).claim.key with
  | none =>
    simp only [World.serveHead, hobject]
    refine h.quiet ?_ (.inr ⟨.empty i, .inl rfl, rfl⟩) (fun _ => ?_) fun hs => ?_
    · rfl
    · refine ⟨[], ⟨suffix_append _ _, fun _ he => absurd he not_mem_nil⟩, fun o ho => ?_⟩
      cases hobject.symm.trans ho
    · rcases hs with hs | hs | hs <;> cases hs
  | some o =>
    simp only [World.serveHead, hobject]
    refine h.quiet ?_ (.inr ⟨.found i, .inr rfl, rfl⟩) (fun harmed => ?_) fun hs => ?_
    · rfl
    · rw [Claim.afterHead] at harmed
      split_ifs at harmed with hstored
      · rw [hstored] at harmed
        exact harmed.elim
      all_goals exact harmed.elim
    · rw [Claim.afterHead] at hs ⊢
      by_cases hstored : agent i = .stored true
      · rw [if_pos hstored]
        exact (h.kept i (.inr (.inl hstored))).imp_right fun hover => hover.append _
      · rw [if_neg hstored] at hs ⊢
        by_cases hpasses : (task i).claim.Passes o.head
        · rw [if_pos hpasses]
          refine .inl ⟨o, hobject, hpasses, fun hdone => ?_⟩
          by_cases hempty : (task i).claim.Carries []
          · -- An object of the size of an empty pack is empty.
            have hnil : o.bytes = [] := length_eq_zero_iff.mp (hpasses.1.trans hempty.1.symm)
            exact hnil ▸ hempty
          · rw [if_neg hempty] at hdone
            rcases hdone with hdone | hdone <;> cases hdone
        · rw [if_neg hpasses] at hs
          rcases hs with hs | hs | hs <;> cases hs

theorem Inv.get :
    Inv task w (update agent i ((task i).claim.afterGet (agent i)
      (w.serveRange (task i).claim.key (task i).claim.size))) := by
  have hsame := h.quiet (i := i) (s := agent i) rfl (.inl rfl) (h.late i) (h.kept i)
  cases hobject : w.objects (task i).claim.key with
  | none =>
    simp only [World.serveRange, hobject]
    exact hsame
  | some o =>
    simp only [World.serveRange, hobject, Claim.afterGet]
    split
    next hpassed =>
      by_cases hcarries : (task i).claim.Carries (o.bytes.take (task i).claim.size)
      · rw [if_pos hcarries]
        refine h.quiet rfl (.inl rfl) (fun harmed => ?_) fun _ => ?_
        · exact harmed.elim
        · rcases h.kept i (.inl hpassed) with ⟨o', ho', hpasses, -⟩ | hover
          · obtain rfl : o = o' := Option.some.inj (hobject.symm.trans ho')
            rw [take_of_length_le (Nat.le_of_eq hpasses.1)] at hcarries
            exact .inl ⟨o, hobject, hpasses, fun _ => hcarries⟩
          · exact .inr hover
      · rw [if_neg hcarries]
        exact h.looking
    · exact hsame

theorem Inv.put {o : Object} {data : Option Bytes}
    (hfree : agent i = .free data) (hmeta : o.metadata = (task i).claim.metadata) (r : Sent) :
    Inv task (w.store i (task i).claim.key o)
      (update agent i ((task i).claim.afterPut (agent i) o r)) := by
  refine h.touch rfl (hfree ▸ trivial) (.inr ⟨o, rfl⟩) (fun o' ho' => ?_) ?_ fun hdone => ?_
  · rw [Option.some.inj ho']
  · rw [hfree]
    cases r <;> exact fun hs => by cases hs
  · cases r with
    | stored =>
      have hcarries : (task i).claim.Carries o.bytes := by
        rcases hdone with hdone | hdone
        · exact of_decide_eq_true (Phase.stored.inj hdone)
        · cases hdone
      refine .inl ⟨o, update_self .., ⟨hcarries.1, ?_⟩, fun _ => hcarries⟩
      rw [Object.head, hmeta, metadata_checksum]
    | again =>
      rw [Claim.afterPut, hfree] at hdone
      rcases hdone with hdone | hdone <;> cases hdone
    | failed => rcases hdone with hdone | hdone <;> cases hdone

theorem Inv.notPut {o : Object} {r : Sent} (hr : r ≠ .stored) :
    Inv task w (update agent i ((task i).claim.afterPut (agent i) o r)) := by
  cases r with
  | stored => exact absurd rfl hr
  | again => exact h.quiet rfl (.inl rfl) (h.late i) (h.kept i)
  | failed => exact h.looking

end

/-- **Every request that the protocols allow keeps the invariant.** -/
theorem inv_keeps : Pool.Keeps answer (fun c => (task c).claim.protocol) (Inv task) := by
  intro i w agent a choice r w' h hallowed hanswer
  have hsame : ∀ {w' : World ι}, w'.objects = w.objects → w'.log = w.log →
      Inv task w' (update agent i (agent i)) := by
    intro w' hobjects hlog
    refine h.quiet hobjects (.inl hlog) (fun ha => ?_) fun hs => ?_
    · rw [Late, hobjects, hlog]
      exact h.late i ha
    · rw [Kept, hobjects, hlog]
      exact h.kept i hs
  cases a with
  | head key =>
    obtain rfl : key = (task i).claim.key := hallowed
    cases choice with (try cases hanswer)
    | serve =>
      have hserve : w.serveHead i (task i).claim.key = (r, w') := Option.some.inj hanswer
      have hhead := h.head (i := i)
      rw [hserve] at hhead
      exact hhead
    | fail => exact hsame rfl rfl
  | get key length =>
    obtain ⟨rfl, rfl⟩ : key = (task i).claim.key ∧ length = (task i).claim.size := hallowed
    cases choice with (try cases hanswer)
    | serve => exact h.get
    | fail => exact hsame rfl rfl
  | put key o =>
    obtain ⟨rfl, hmeta, ⟨data, hfree⟩, -⟩ := hallowed
    cases choice with (try cases hanswer)
    | serve => exact h.put hfree hmeta .stored
    | fail error cut applied =>
      cases applied with
      | true => exact h.put hfree hmeta (.failed error cut)
      | false => exact h.notPut (o := o) (r := .failed error cut) fun h => by cases h
    | again applied =>
      cases applied with
      | true => exact h.put hfree hmeta .again
      | false => exact h.notPut (o := o) (r := .again) fun h => by cases h
  | delete key =>
    obtain ⟨rfl, hstored⟩ := hallowed
    have herase : Inv task (w.erase i (task i).claim.key) (update agent i .looking) :=
      h.touch rfl (hstored ▸ trivial) (.inl rfl) (fun o ho => by cases ho)
        (fun hs => by cases hs) fun hdone => by rcases hdone with hdone | hdone <;> cases hdone
    cases choice with (try cases hanswer)
    | serve => exact herase
    | fail error cut applied =>
      cases applied with
      | true => exact herase
      | false => exact h.looking
  | cancelled | backoff attempt =>
    cases choice <;> cases hanswer
    exact hsame rfl rfl
  | readFile path =>
    have hread : ∀ r, Inv task w (update agent i ((agent i).afterRead r)) := by
      intro r
      rcases (agent i).afterRead_cases r with heq | ⟨read, data, hfree, -, heq⟩
      · rw [heq]
        exact hsame rfl rfl
      · rw [heq]
        have hlate : Late task w i := h.late i (hfree ▸ trivial)
        refine h.quiet rfl (.inl rfl) (fun _ => hlate) fun h => ?_
        rcases h with h | h | h <;> cases h
    cases choice <;> cases hanswer
    · exact hread _
    · exact hread (.error _)
  | remove staged =>
    cases choice <;> cases hanswer
    · exact hsame rfl rfl
    · exact hsame rfl rfl

/-- Only a PUT and a DELETE change an object, under their own key. -/
theorem put_or_delete {a : Act} {choice : Choice} {r : a.Res} {key : Bytes}
    (h : answer i w a choice = some (r, w')) (hne : w'.objects key ≠ w.objects key) :
    (∃ o, a = .put key o) ∨ a = .delete key := by
  have hkey : ∀ {key' object}, update w.objects key' object key ≠ w.objects key → key' = key :=
    fun h => by_contra fun hne => h (update_of_ne (Ne.symm hne) ..)
  cases a with
  | head key' =>
    cases choice with (try cases h)
    | serve =>
      obtain rfl : (w.serveHead i key').2 = w' := congrArg Prod.snd (Option.some.inj h)
      refine absurd ?_ hne
      rw [World.serveHead]
      split <;> rfl
    | fail => exact absurd rfl hne
  | put key' o =>
    cases choice with (try cases h)
    | serve => exact .inl ⟨o, hkey hne ▸ rfl⟩
    | fail error cut applied | again applied =>
      cases applied
      · exact absurd rfl hne
      · exact .inl ⟨o, hkey hne ▸ rfl⟩
  | delete key' =>
    cases choice with (try cases h)
    | serve => exact .inr (hkey hne ▸ rfl)
    | fail error cut applied =>
      cases applied
      · exact absurd rfl hne
      · exact .inr (hkey hne ▸ rfl)
  | get | cancelled | backoff | readFile | remove =>
    cases choice <;> cases h <;> exact absurd rfl hne

/-- **A request that replaces or deletes an object** is one of a call that has not seen it. -/
theorem Inv.unseen (h : Inv task w agent) {a : Act} {choice : Choice} {r : a.Res}
    (hallowed : (task i).claim.allowed (agent i) a) (hanswer : answer i w a choice = some (r, w'))
    {key : Bytes} {o : Object} (ho : w.objects key = some o) (hgone : w'.objects key ≠ some o) :
    (task i).claim.key = key ∧ Unseen task w.log i o := by
  obtain ⟨rfl, harmed⟩ : key = (task i).claim.key ∧ (agent i).Armed := by
    rcases put_or_delete hanswer (ho ▸ hgone) with ⟨o', rfl⟩ | rfl
    · obtain ⟨hkey, -, ⟨data, hfree⟩, -⟩ := hallowed
      exact ⟨hkey, hfree ▸ trivial⟩
    · obtain ⟨hkey, hstored⟩ := hallowed
      exact ⟨hkey, hstored ▸ trivial⟩
  exact ⟨rfl, (h.late i harmed).unseen ho⟩

end Steps

/-! ### Every run -/

section Runs

variable [DecidableEq ι]

abbrev Calls (ι : Type) := Pool ι Act Act.Res (World ι) (Option PackRef)

/-- All calls at their start, over any objects. -/
def calls (task : ι → Task) (objects : Bytes → Option Object) (staged : ι → Option Bytes) :
    Calls ι where
  world := { objects, staged }
  prog c := (task c).body

/-- The call has returned with a reference to its pack. -/
def Reported (s : Calls ι) (a : ι) : Prop := ∃ ref, s.prog a = .ret (some ref)

instance (s : Calls ι) (a : ι) : Decidable (Reported s a) :=
  match h : s.prog a with
  | .ret (some ref) => isTrue ⟨ref, h⟩
  | .ret none => isFalse fun ⟨_, h'⟩ => by cases h.symm.trans h'
  | .act _ _ => isFalse fun ⟨_, h'⟩ => by cases h.symm.trans h'

omit [DecidableEq ι] in
theorem inv_calls (objects : Bytes → Option Object) (staged : ι → Option Bytes) :
    Inv task ⟨objects, staged, []⟩ fun _ => .looking where
  late d hd := hd.elim
  kept a ha := by rcases ha with ha | ha | ha <;> cases ha

/-- **In every interleaving of calls**, once a call has reported success its pack is under its key,
unless it was overtaken; and whenever a request replaces or deletes an object, the last HEAD of its
call found the key empty, before the object was stored. -/
theorem reported_object_stays (task : ι → Task) (objects : Bytes → Option Object)
    (staged : ι → Option Bytes) (labels : List (ι × Choice)) (s : Calls ι)
    (hrun : Lts.run (Pool.step answer) (calls task objects staged) labels = some s) :
    (∀ a, Reported s a → Holds s.world (task a).claim ∨ Overtaken task s.world.log a) ∧
    ∀ d choice s' key o, Pool.step answer s (d, choice) = some s' →
      s.world.objects key = some o → s'.world.objects key ≠ some o →
      (task d).claim.key = key ∧ Unseen task s.world.log d o := by
  have hinit : Pool.Tracked (fun c => (task c).claim.protocol) (fun _ s r => r.isSome → s.Done)
      (Inv task) (calls task objects staged) :=
    ⟨_, inv_calls objects staged, fun c => obeys_body (task c)⟩
  obtain ⟨agent, h, hobeys⟩ := Pool.run_tracks inv_keeps hinit hrun
  constructor
  · rintro a ⟨ref, href⟩
    have hdone : (agent a).Done := by
      have ha := hobeys a
      rw [href] at ha
      exact ha rfl
    refine (h.kept a (.inr hdone)).imp_left ?_
    rintro ⟨o, ho, -, hcarries⟩
    exact ⟨o, ho, hcarries hdone⟩
  · intro d choice s' key o hstep ho hgone
    obtain ⟨a, k, r, w, hprog, hanswer, rfl⟩ := Pool.step_eq_some hstep
    have hd := hobeys d
    rw [hprog] at hd
    exact h.unseen hd.1 hanswer ho hgone

/-- Two packs of one byte under one key. -/
def twoPacks (second : Bool) : Task :=
  let data : Bytes := if second then [2] else [1]
  .native ⟨1, lit "s3", 1⟩ ⟨lit "pack", 0, 1, checksumOf data, lit "key", lit "path", 1⟩

/-- The first call up to its report; the second has looked before, or has not started. -/
def firstReports (second : Bool) : List (Bool × Choice) :=
  (if second then [(true, .say false), (true, .serve)] else []) ++
    [(false, .say false), (false, .serve), (false, .serve), (false, .serve), (false, .serve),
      (false, .serve)]

/-- Both calls, over an empty store. -/
def twoCalls : Calls Bool :=
  calls twoPacks (fun _ => none) fun second => some [if second then 2 else 1]

/-- The second call has looked before the first stored. When it puts, after the first has reported,
it replaces an object that it has not seen. -/
theorem reported_object_stays_until_put :
    ∃ s s' o, Lts.run (Pool.step answer) twoCalls (firstReports true ++ [(true, .serve)]) = some s ∧
      Pool.step answer s (true, .serve) = some s' ∧ ¬ Holds s'.world (twoPacks false).claim ∧
      s.world.objects (lit "key") = some o ∧ Unseen twoPacks s.world.log true o ∧
      (Holds s.world (twoPacks false).claim ∨ Overtaken twoPacks s.world.log false) := by
  have heval : (Lts.run (Pool.step answer) twoCalls (firstReports true ++ [(true, .serve)])).any
      (fun s => decide (Reported s false ∧ Holds s.world (twoPacks false).claim ∧
        (Pool.step answer s (true, .serve)).any
          (fun s' => decide (¬ Holds s'.world (twoPacks false).claim)) = true)) = true := by
    decide +kernel
  obtain ⟨s, hrun, hreported, ⟨o, ho, hcarries⟩, hput⟩ := Lts.exists_of_run heval
  obtain ⟨s', hstep, hgone⟩ := (Option.any_eq_true _ _).mp hput
  have hgone : ¬ Holds s'.world (twoPacks false).claim := of_decide_eq_true hgone
  have hstays := reported_object_stays twoPacks _ _ _ s hrun
  refine ⟨s, s', o, hrun, hstep, hgone, ho, ?_, hstays.1 false hreported⟩
  exact (hstays.2 true .serve s' _ o hstep ho fun h => hgone ⟨o, h, hcarries⟩).2

/-- The second call has found the key empty before, and puts after the first has reported. -/
theorem reported_object_replaced :
    ∃ s, Lts.run (Pool.step answer) twoCalls (firstReports true ++
      [(true, .serve), (true, .serve)]) = some s ∧
      Reported s false ∧ ¬ Holds s.world (twoPacks false).claim ∧
      Holds s.world (twoPacks true).claim := by
  exact Lts.exists_of_run (by decide +kernel)

end Runs

end Dmi.Objects
