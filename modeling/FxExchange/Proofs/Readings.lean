import FxExchange.Proofs.Sessions

/-
# Readings

What the wallet shows a user who makes one request after the other: the balances by the
requests before, as long as no drop of the stored wallet is lost.
-/

namespace FxExchange

open Transition

variable {cfg : Config} {s s' s₁ : Sys} {t : Tid} {e : Event} {u : UserId} {th th' : Thread}

/-! ## What a session reads -/

/-- No drop of the stored wallet of the user is lost. -/
def KeepsDrops (u : UserId) (s : Sys) : Event → Prop
  | .run t .fail => ∀ c ∈ s.next t, c.drops u = false
  | .crash t => ∀ c ∈ s.next t, c.drops u = false
  | _ => True

instance (u : UserId) (s : Sys) : DecidablePred (KeepsDrops u s)
  | .run t .fail => inferInstanceAs (Decidable (∀ c ∈ s.next t, _))
  | .run _ .ok => isTrue trivial
  | .run _ (.rates _) => isTrue trivial
  | .crash t => inferInstanceAs (Decidable (∀ c ∈ s.next t, _))
  | .spawn _ => isTrue trivial
  | .tick _ => isTrue trivial

lemma KeepsDrops.run {choice : Choice} (h : KeepsDrops u s (.run t choice)) {c : Cmd}
    (hc : s.next t = some c) (hdrops : c.drops u = true) : choice ≠ .fail := by
  rintro rfl
  exact absurd ((h c hc).symm.trans hdrops) Bool.false_ne_true

/-- The readings of a user who makes one request after the other. -/
structure Reads (u : UserId) (s : Sys) : Prop where
  /-- A reading answers the balances by the requests before it. -/
  wallets : Each (fun pre th => th.state.req = .getWallet u → ∀ w, th.wallet = some w →
    w.balances = purseOf (pre.flatMap Thread.journals)) (s.calls u)
  readings : ∀ th ∈ s.calls u, th.alive = true → th.state.req = .getWallet u →
    ∃ x, th.prog.wp (reading u) Reader.Answers x ∧
      ∀ w ∈ th.next.bind (Cmd.stores u), w.balances = s.db.balancesOf u
  /-- What is stored is current, or about to be dropped. -/
  stored : ∀ w, Custody.live (s.redis.wallets u) s.now = some w →
    w.balances = s.db.balancesOf u ∨ ∃ th ∈ s.calls u, th.next.any (Cmd.drops u) = true

lemma reads_initial : Reads u Sys.initial where
  wallets pre th post heq := by simp [Sys.initial, Sys.calls] at heq
  readings th hth := by simp [Sys.initial, Sys.calls] at hth
  stored w hw := by cases hw

/-- What others do does not change the readings. -/
lemma Reads.of_eq (h : Reads u s) (hcalls : s'.calls u = s.calls u)
    (hbalances : s'.db.balancesOf u = s.db.balancesOf u)
    (hstored : ∀ w, Custody.live (s'.redis.wallets u) s'.now = some w →
      Custody.live (s.redis.wallets u) s.now = some w) : Reads u s' := by
  constructor
  · rw [hcalls]
    exact h.wallets
  · rw [hcalls, hbalances]
    exact h.readings
  · rw [hcalls, hbalances]
    exact fun w hw => h.stored w (hstored w hw)

lemma Reads.spawn (h : Reads u s) (req : Request) :
    Reads u (s.setThread s.seq { state := { req }, prog := req.program cfg }) := by
  have hcalls := Sys.calls_spawn (u := u) s { state := { req }, prog := req.program cfg }
  by_cases hu : req.userId = u
  swap
  · rw [List.filter_cons_of_neg (by simp [Thread.isOf, hu]), List.filter_nil,
      List.append_nil] at hcalls
    exact h.of_eq hcalls rfl fun w hw => hw
  rw [List.filter_cons_of_pos (by simp [Thread.isOf, hu]), List.filter_nil] at hcalls
  have hreading : req = .getWallet u → (req.program cfg).wp (reading u) Reader.Answers .start := by
    rintro rfl
    exact reading_program cfg u
  constructor
  · rw [hcalls, each_append_singleton]
    refine ⟨h.wallets, fun hreq w hw => ?_⟩
    -- a new reading has no answer yet
    cases Reader.has_of_answer (hreading hreq) (Thread.answer_of_wallet hw)
  · rw [hcalls]
    intro th hth halive hreq
    rcases List.mem_append.mp hth with hold | hnew
    · exact h.readings th hold halive hreq
    · obtain rfl := List.mem_singleton.mp hnew
      refine ⟨.start, hreading hreq, fun w hw => ?_⟩
      cases Reader.holds_of_stores (hreading hreq) hw
  · rw [hcalls]
    intro w hw
    rcases h.stored w hw with hcurrent | ⟨th, hth, hdrops⟩
    · exact Or.inl hcurrent
    · exact Or.inr ⟨th, List.mem_append_left _ hth, hdrops⟩

/-- Only an operation of the user drops the stored wallet. -/
lemma drops_uses (h : Reachable cfg s) {l : Local} {c : Cmd}
    {k : Except Exn c.Ret → Service Response} (hth : s.threads t = some ⟨l, .call c k, true⟩)
    (hdrops : c.drops u = true) : l.req.userId = u ∧ l.req.key.isSome := by
  have huses := uses_of_reachable h hth
  cases c with
  | redis c =>
    cases c with
    | delWallet u' =>
      obtain rfl : u' = u := of_decide_eq_true hdrops
      exact ⟨huses.1.symm, huses.2⟩
    | _ => cases hdrops
  | _ => cases hdrops

/-- A command of somebody else. -/
lemma Reads.runOther (h : Reads u s) (hreach : Reachable cfg s) {l : Local} {c : Cmd}
    {choice : Choice} {k : Except Exn c.Ret → Service Response} {r : Except Exn c.Ret}
    (hth : s.threads t = some ⟨l, .call c k, true⟩)
    (hrespond : s.respond t l.tx c choice = some (s₁, r)) (hu : l.req.userId ≠ u) :
    Reads u (s₁.setThread t ⟨l.after s.seq c r, k r, true⟩) := by
  have hinv := inv_of_reachable hreach
  have hserved := Sys.served_of_eq hrespond
  obtain ⟨hthreads, hseq, hnow⟩ := hserved.frame
  have hdrops : c.drops u = false :=
    Bool.eq_false_of_not_eq_true fun hdrops => hu (drops_uses hreach hth hdrops).1
  have hbalances : s₁.db.balancesOf u = s.db.balancesOf u := by
    cases hinv.sideStep (u := u) hth hserved with
    | same _ hbalances => exact hbalances
    | booked hu' => exact absurd hu' hu
  refine h.of_eq (Sys.calls_of_other hinv hth hu s₁ hthreads hseq _ Local.after_req) hbalances
    fun w hw => ?_
  change Custody.live (s₁.redis.wallets u) s₁.now = some w at hw
  rcases Sys.stored_of_respond (u := u) hrespond (by simp [hdrops]) with ⟨hsame, -⟩ | ⟨-, htrue⟩ |
    ⟨w', d, hstores, -⟩
  · rwa [hsame, hnow] at hw
  · rw [hdrops] at htrue
    cases htrue
  · obtain ⟨-, hreq⟩ := getWallet_of_stores hreach hth hstores
    exact absurd (congrArg Request.userId hreq) hu

/-- A request without a key books nothing. -/
lemma journals_of_key (h : Reachable cfg s) (hth : s.threads t = some th)
    (hkey : th.state.req.key = none) : th.journals = [] := by
  unfold Thread.journals
  cases hbooked : th.state.trail.booked with
  | none => rfl
  | some tx =>
    obtain ⟨-, hcommit⟩ := (history_of_reachable h).closed t th tx hth hbooked
    obtain ⟨th', j, hth', -, hbooks⟩ := (history_of_reachable h).booked _ hcommit
    obtain rfl := Option.some.inj (hth.symm.trans hth')
    rw [hbooks.key] at hkey
    cases hkey

section Last

variable {l : Local} {c : Cmd} {choice : Choice} {k : Except Exn c.Ret → Service Response}
  {r : Except Exn c.Ret} {pre : List Thread}

/-- What is stored is current when the last request is not about to drop it. -/
lemma Reads.current (h : Reads u s) (hsession : Session u s)
    (hcalls : s.calls u = pre ++ [⟨l, .call c k, true⟩]) (hdrops : c.drops u = false)
    {w : WalletResponse} (hw : Custody.live (s.redis.wallets u) s.now = some w) :
    w.balances = s.db.balancesOf u := by
  rcases h.stored w hw with hcurrent | ⟨th, hmem, htrue⟩
  · exact hcurrent
  rw [hcalls] at hmem
  rcases List.mem_append.mp hmem with hold | hlast
  · rw [(hsession.each pre _ [] hcalls).idle th hold] at htrue
    cases htrue
  · obtain rfl := List.mem_singleton.mp hlast
    exact absurd (hdrops.symm.trans htrue) Bool.false_ne_true

/-- A reading comes by the current balances. -/
lemma Reads.read (h : Reads u s) (hsession : Session u s) (hreach : Reachable cfg s)
    (hth : s.threads t = some ⟨l, .call c k, true⟩)
    (hrespond : s.respond t l.tx c choice = some (s₁, r)) (hreq : l.req = .getWallet u)
    (hcalls : s.calls u = pre ++ [⟨l, .call c k, true⟩]) :
    ∃ x, (k r).wp (reading u) Reader.Answers x ∧
      (∀ w, x = .holds w → w.balances = s.db.balancesOf u) ∧
      ∀ w, x = .has w → w.balances = s.db.balancesOf u := by
  obtain ⟨x, ⟨hallows, hnext⟩, hpending⟩ := h.readings ⟨l, .call c k, true⟩
    (by rw [hcalls]; simp) rfl hreq
  have hmoved := Reader.moved (founded_of_reachable hreach) (Sys.served_of_eq hrespond) hallows
  refine ⟨x.after c r, hnext r _ rfl, fun w hw => ?_, fun w hw => ?_⟩
  · rw [hw] at hmoved
    cases hmoved with
    | read hread => exact hread
  · rw [hw] at hmoved
    cases hmoved with
    | stored hc => exact hpending w hc
    | hit hlive =>
      refine h.current hsession hcalls (Bool.eq_false_of_not_eq_true fun hdrops => ?_) hlive
      have hkey := (drops_uses hreach hth hdrops).2
      rw [hreq] at hkey
      cases hkey

/-- The stored wallet after a command of the last request. -/
lemma Reads.stored_after (h : Reads u s) (hsession : Session u s) (hreach : Reachable cfg s)
    (hth : s.threads t = some ⟨l, .call c k, true⟩)
    (hrespond : s.respond t l.tx c choice = some (s₁, r))
    (hcalls : s.calls u = pre ++ [⟨l, .call c k, true⟩])
    (hfail : c.drops u = true → choice ≠ .fail) {w : WalletResponse}
    (hw : Custody.live (s₁.redis.wallets u) s₁.now = some w) :
    w.balances = s.db.balancesOf u := by
  rcases Sys.stored_of_respond (u := u) hrespond hfail with ⟨hsame, hdrops⟩ | ⟨hnone, -⟩ |
    ⟨w', d, hstores, hset⟩
  · rw [hsame, (Sys.served_of_eq hrespond).frame.2.2] at hw
    exact h.current hsession hcalls hdrops hw
  · rw [hnone] at hw
    cases hw
  · rw [hset, Custody.live_eq_some_iff] at hw
    obtain ⟨deadline, heq, -⟩ := hw
    cases heq
    obtain ⟨-, hreq⟩ := getWallet_of_stores hreach hth hstores
    obtain ⟨x, -, hpending⟩ := h.readings ⟨l, .call c k, true⟩ (by rw [hcalls]; simp) rfl hreq
    exact hpending w hstores

/-- The readings before the last request have nothing to store. -/
lemma Reads.idle (h : Reads u s) (hsession : Session u s) (hcalls : s.calls u = pre ++ [th])
    (hth' : th' ∈ pre) (halive : th'.alive = true) (hreq : th'.state.req = .getWallet u)
    (p : Purse) : ∃ x, th'.prog.wp (reading u) Reader.Answers x ∧
      ∀ w ∈ th'.next.bind (Cmd.stores u), w.balances = p := by
  obtain ⟨x, hwp, -⟩ := h.readings th' (by rw [hcalls]; simp [hth']) halive hreq
  refine ⟨x, hwp, fun w hw => ?_⟩
  rw [(hsession.each pre _ [] hcalls).idle th' hth'] at hw
  cases hw

/-- A command of the user. -/
lemma Reads.runOwn (h : Reads u s) (hsession : Session u s) (hreach : Reachable cfg s)
    (hth : s.threads t = some ⟨l, .call c k, true⟩)
    (hrespond : s.respond t l.tx c choice = some (s₁, r)) (hu : l.req.userId = u)
    (hfail : c.drops u = true → choice ≠ .fail) :
    Reads u (s₁.setThread t ⟨l.after s.seq c r, k r, true⟩) := by
  have hinv := inv_of_reachable hreach
  have hserved := Sys.served_of_eq hrespond
  obtain ⟨hthreads, hseq, -⟩ := hserved.frame
  obtain ⟨pre, hcalls, hcalls'⟩ := hsession.last hinv hth hu s₁ hthreads hseq
    ⟨l.after s.seq c r, k r, true⟩ Local.after_req
  constructor
  · rw [hcalls', each_append_singleton]
    refine ⟨fun p th p' heq =>
      h.wallets p th (p' ++ [⟨l, .call c k, true⟩]) (by simp [hcalls, heq]),
      fun hreq w hw => ?_⟩
    rw [Local.after_req] at hreq
    obtain ⟨x, hwp, -, hhas⟩ := h.read hsession hreach hth hrespond hreq hcalls
    have hanswer := Thread.answer_of_wallet hw
    rw [hhas w (Reader.has_of_answer hwp hanswer), (chained_of_reachable hreach u).balances,
      hsession.journals, hcalls, List.flatMap_append, List.flatMap_singleton,
      journals_of_key hreach hth (by rw [hreq]; rfl), List.append_nil]
  · rw [hcalls']
    intro th hmem halive hreq
    rcases List.mem_append.mp hmem with hold | hlast
    · exact h.idle hsession hcalls hold halive hreq _
    · obtain rfl := List.mem_singleton.mp hlast
      rw [Local.after_req] at hreq
      obtain ⟨x, hwp, hholds, -⟩ := h.read hsession hreach hth hrespond hreq hcalls
      refine ⟨x, hwp, fun w hw => ?_⟩
      show w.balances = s₁.db.balancesOf u
      rw [hserved.balancesOf]
      · exact hholds w (Reader.holds_of_stores hwp hw)
      · rintro rfl
        have huses : l.req.key.isSome := uses_of_reachable hreach hth
        rw [hreq] at huses
        cases huses
  · intro w hw
    change Custody.live (s₁.redis.wallets u) s₁.now = some w at hw
    show w.balances = s₁.db.balancesOf u ∨ _
    cases hinv.sideStep (u := u) hth hserved with
    | same _ hbalances =>
      rw [hbalances]
      exact Or.inl (h.stored_after hsession hreach hth hrespond hcalls hfail hw)
    | booked _ htx hbooks _ _ _ hl' =>
      -- the stored wallet is dropped next
      refine Or.inr ⟨⟨l.after s.seq c r, k r, true⟩, by rw [hcalls']; simp, ?_⟩
      rw [← hu]
      exact drops_of_commit hreach hth hrespond htx hbooks hl'

/-- A process dies under the last request. -/
lemma Reads.crashOwn (h : Reads u s) (hsession : Session u s) (hinv : Inv cfg s)
    (hth : s.threads t = some ⟨l, .call c k, true⟩) (hu : l.req.userId = u)
    (hdrops : c.drops u = false) : Reads u ({ s with locks := s.locks.releaseAll t }.setThread t
      ⟨{ l with tx := none }, .call c k, false⟩) := by
  obtain ⟨pre, hcalls, hcalls'⟩ := hsession.last hinv hth hu
    { s with locks := s.locks.releaseAll t } rfl rfl ⟨{ l with tx := none }, .call c k, false⟩ rfl
  constructor
  · rw [hcalls', each_append_singleton]
    refine ⟨fun p th p' heq =>
      h.wallets p th (p' ++ [⟨l, .call c k, true⟩]) (by simp [hcalls, heq]),
      fun _ w hw => ?_⟩
    cases hw
  · rw [hcalls']
    intro th hmem halive hreq
    rcases List.mem_append.mp hmem with hold | hlast
    · exact h.idle hsession hcalls hold halive hreq _
    · obtain rfl := List.mem_singleton.mp hlast
      cases halive
  · exact fun w hw => Or.inl (h.current hsession hcalls hdrops hw)

end Last

lemma Reads.step (h : Reads u s) (hsession : Session u s) (hreach : Reachable cfg s)
    (hok : KeepsDrops u s e) (hstep : s.step cfg e = some s') : Reads u s' := by
  cases Sys.step_of_eq hstep with
  | spawn req => exact h.spawn req
  | @run t choice l c k s₁ r hth hrespond =>
    by_cases hu : l.req.userId = u
    · exact h.runOwn hsession hreach hth hrespond hu (hok.run (Sys.next_call hth))
    · exact h.runOther hreach hth hrespond hu
  | @crash t l c k hth =>
    by_cases hu : l.req.userId = u
    · exact h.crashOwn hsession (inv_of_reachable hreach) hth hu (hok c (Sys.next_call hth))
    · exact h.of_eq (Sys.calls_of_other (inv_of_reachable hreach) hth hu
        { s with locks := s.locks.releaseAll t } rfl rfl _ rfl) rfl fun w hw => hw
  | tick ms =>
    refine h.of_eq rfl rfl fun w hw => ?_
    obtain ⟨deadline, hentry, hlt⟩ := Custody.live_eq_some_iff.mp hw
    exact Custody.live_eq_some_iff.mpr ⟨deadline, hentry,
      lt_of_le_of_lt (Nat.le_add_right _ _) hlt⟩

theorem reads_of_runs (h : Runs cfg (fun s e => Sequential u s e ∧ KeepsDrops u s e)
    Sys.initial s) : Reads u s :=
  h.invariant reads_initial fun _ _ _ hrun hreads hok hstep =>
    hreads.step (session_of_runs (hrun.mono fun _ _ hok => hok.1)) (reachable_of_runs hrun) hok.2
      hstep

end FxExchange
