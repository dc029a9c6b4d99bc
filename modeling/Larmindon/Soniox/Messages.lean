/-
# `Soniox.Messages` — the order in which the socket task speaks

A connection that ends is either the last one or is retried, and a retry queues
`Reconnecting` before the next connection is opened.  So the messages are groups,
one a connection: its responses, then `Reconnecting` where another connection
follows.  After the last group comes at most one `Finished` or `Fatal`, with
which the session returns.

    phase                messages                        connections opened
    spawned, waiting     groups                          one a group
    connected            groups, responses               one more
    returned, gone       groups, responses, last word

`Framed` is this table; it also says on which connection each response was
received.
-/
import Larmindon.Soniox.Connections
import Larmindon.Soniox.Serving

namespace Larmindon.Soniox

/-- `(Response* Reconnecting)*`. -/
def ofGroups (groups : List (List SonioxResponse × String)) : List Inbound :=
  groups.flatMap fun g => g.1.map .response ++ [.reconnecting g.2]

@[simp] theorem ofGroups_nil : ofGroups [] = [] := rfl

@[simp] theorem ofGroups_snoc (groups : List (List SonioxResponse × String))
    (rs : List SonioxResponse) (reason : String) :
    ofGroups (groups ++ [(rs, reason)]) = ofGroups groups ++ rs.map .response ++ [.reconnecting reason] := by
  simp [ofGroups]

/-- At most one last word. -/
def LastWord (ms : List Inbound) : Prop :=
  ms = [] ∨ ms = [.finished] ∨ ∃ message, ms = [.fatal message]

/-- The groups, the responses since, the last word and the connections opened, by phase. -/
def Phase.Frames (p : Phase) (opened : ℕ) (groups : List (List SonioxResponse × String))
    (rs : List SonioxResponse) (last : List Inbound) : Prop :=
  match p with
  | .spawned | .waiting _ => rs = [] ∧ last = [] ∧ opened = groups.length
  | .connected _ => last = [] ∧ opened = groups.length + 1
  | .returned | .gone => LastWord last

structure Framed (acts : List Act) (t : Task) (groups : List (List SonioxResponse × String))
    (rs : List SonioxResponse) (last : List Inbound) : Prop where
  told : messages acts = ofGroups groups ++ rs.map .response ++ last
  frames : t.phase.Frames (opened acts) groups rs last
  /-- The responses of a group were received on its connection. -/
  heard : ∀ i g, groups[i]? = some g → ∀ r ∈ g.1, .received r ∈ onConnection (i + 1) acts
  hears : ∀ r ∈ rs, .received r ∈ onConnection (groups.length + 1) acts

/-! ## A move -/

/-- A connection queues nothing but responses it has received. -/
theorem Conn.Moves.responses {c : Conn} {q q' : Queues} {e : Event} {v : Verdict} {acts : List Act}
    (h : c.Moves q e v q' acts) :
    ∃ rs : List SonioxResponse, Soniox.messages acts = rs.map .response ∧ ∀ r ∈ rs, .received r ∈ acts := by
  have forwarded : ∀ r : SonioxResponse,
      ∃ rs : List SonioxResponse,
        Soniox.messages (.received r :: (forward r).map fun r => .message (.response r)) = rs.map .response ∧
        ∀ r' ∈ rs, .received r' ∈ Act.received r :: (forward r).map fun r => .message (.response r) := by
    intro r
    refine ⟨forward r, ?_, ?_⟩
    · simp [Soniox.messages, List.filterMap_map]
    · intro r' hr'
      have hr : r' = r := by
        simp only [forward] at hr'
        split at hr'
        · cases hr'
        · exact List.mem_singleton.mp hr'
      rw [hr]
      exact List.mem_cons_self
  cases h with
  | answered | dismissed => exact forwarded _
  | _ => exact ⟨[], rfl, by simp⟩

/-- What is queued once a connection has ended. -/
inductive Task.AfterOutcome : Outcome → Task × List Act → Prop
  | last {o : Outcome} {t : Task} {acts : List Act} : t.phase = .returned → LastWord (messages acts) →
      AfterOutcome o (t, acts)
  | again {reason : String} {p : Bool} {t : Task} {delay : ℕ} : t.phase = .waiting delay →
      AfterOutcome (.retry reason p) (t, [.message (.reconnecting reason)])

theorem Task.onOutcome_after (t : Task) (q : Queues) (o : Outcome) :
    AfterOutcome o (t.onOutcome q o) ∧ .connect ∉ (t.onOutcome q o).2 := by
  cases o with
  | finished => exact ⟨.last rfl (.inr (.inl rfl)), by simp [onOutcome]⟩
  | shutdown => exact ⟨.last rfl (.inl rfl), by simp [onOutcome]⟩
  | fatal message => exact ⟨.last rfl (.inr (.inr ⟨message, rfl⟩)), by simp [onOutcome]⟩
  | retry reason p =>
      rcases Nat.lt_or_ge MAX_RECONNECT_ATTEMPTS (nextAttempt t.attempt p) with h | h
      · obtain ⟨message, he⟩ := onOutcome_over t q reason h
        rw [he]
        exact ⟨.last rfl (.inr (.inr ⟨message, rfl⟩)), by simp⟩
      · rw [onOutcome_again t q reason (Nat.not_lt.mpr h)]
        exact ⟨.again rfl, by simp⟩

namespace Framed

variable {acts new : List Act} {t t' : Task} {groups : List (List SonioxResponse × String)}
  {rs rs' : List SonioxResponse} {last : List Inbound}

/-- Acts that open no connection: more responses of the last one, then maybe a last word. -/
theorem extend (h : Framed acts t groups rs []) (hno : .connect ∉ new)
    (htold : messages new = rs'.map .response ++ last)
    (hrec : ∀ r ∈ rs', opened acts = groups.length + 1 ∧ .received r ∈ new)
    (hf : t'.phase.Frames (opened acts) groups (rs ++ rs') last) :
    Framed (acts ++ new) t' groups (rs ++ rs') last where
  told := by rw [messages_append, h.told, htold]; simp
  frames := by
    rw [opened_append, opened, opened, List.count_eq_zero_of_not_mem hno, Nat.add_zero]
    exact hf
  heard := fun i g hg r hr => mem_onConnection_append (h.heard i g hg r hr) new
  hears := by
    intro r hr
    rcases List.mem_append.mp hr with hr | hr
    · exact mem_onConnection_append (h.hears r hr) new
    · obtain ⟨hk, hmem⟩ := hrec r hr
      rw [onConnection_append _ _ hno, if_pos hk.symm]
      exact List.mem_append_right _ hmem

/-- The same where no response comes. -/
theorem close (h : Framed acts t groups rs []) (hno : .connect ∉ new)
    (hf : t'.phase.Frames (opened acts) groups rs (messages new)) :
    Framed (acts ++ new) t' groups rs (messages new) := by
  have he : Framed (acts ++ new) t' groups (rs ++ []) (messages new) :=
    h.extend hno rfl (by simp) (by rwa [List.append_nil])
  rwa [List.append_nil] at he

/-- A connection is opened after the last group. -/
theorem connect (h : Framed acts t groups [] []) (hk : opened acts = groups.length)
    (ht : t'.phase = .connected {}) : Framed (acts ++ [.connect]) t' groups [] [] where
  told := by rw [messages_append, h.told]; exact List.append_nil _
  frames := by
    rw [ht, opened_append]
    exact ⟨rfl, congrArg (· + 1) hk⟩
  heard := fun i g hg r hr => mem_onConnection_append (h.heard i g hg r hr) _
  hears := by simp

/-- The connection has ended and is retried: its responses are a group. -/
theorem retry (h : Framed acts t groups rs []) {reason : String} {t₁ : Task} {delay : ℕ}
    (hk : opened acts = groups.length + 1) (ht : t₁.phase = .waiting delay) :
    Framed (acts ++ [.message (.reconnecting reason)]) t₁ (groups ++ [(rs, reason)]) [] [] where
  told := by rw [messages_append, h.told, ofGroups_snoc]; simp [messages]
  frames := by
    rw [ht, opened_append]
    exact ⟨rfl, rfl, by simpa [opened_cons] using hk⟩
  heard := by
    intro i g hg r hr
    rcases Nat.lt_trichotomy i groups.length with hi | hi | hi
    · rw [List.getElem?_append_left hi] at hg
      exact mem_onConnection_append (h.heard i g hg r hr) _
    · subst hi
      rw [List.getElem?_concat_length, Option.some.injEq] at hg
      subst hg
      exact mem_onConnection_append (h.hears r hr) _
    · rw [List.getElem?_eq_none (by simp; omega)] at hg
      cases hg
  hears := by simp

theorem own {e : Event} (h : Framed acts t groups rs last) (ho : t.own e = some (t', new)) :
    ∃ groups rs last, Framed (acts ++ new) t' groups rs last := by
  have hf := h.frames
  cases Task.own_moves ho with
  | started hp | slept hp =>
      rw [hp] at hf
      obtain ⟨rfl, rfl, hk⟩ := hf
      exact ⟨groups, [], [], h.connect hk rfl⟩
  | unstarted hp =>
      rw [hp] at hf
      obtain ⟨rfl, rfl, hk⟩ := hf
      exact ⟨groups, [], _, h.close (by simp) (.inr (.inr ⟨_, rfl⟩))⟩
  | goes hp hm =>
      rw [hp] at hf
      obtain ⟨rfl, hk⟩ := hf
      obtain ⟨rs', htold, hrec⟩ := hm.responses
      exact ⟨groups, rs ++ rs', [], h.extend hm.connect_not_mem (by simpa using htold)
        (fun r hr => ⟨hk, hrec r hr⟩) ⟨rfl, hk⟩⟩
  | ends hp hm =>
      rename_i c o q acts'
      rw [hp] at hf
      obtain ⟨rfl, hk⟩ := hf
      obtain ⟨rs', htold, hrec⟩ := hm.responses
      -- first what the connection did, then what its end adds
      have h₁ : Framed (acts ++ (acts' ++ [.outcome o])) t groups (rs ++ rs') [] :=
        h.extend (by simp [hm.connect_not_mem])
          (by rw [messages_append, htold, List.append_nil]; exact List.append_nil _)
          (fun r hr => ⟨hk, List.mem_append_left _ (hrec r hr)⟩) (by rw [hp]; exact ⟨rfl, hk⟩)
      have hk₁ : opened (acts ++ (acts' ++ [.outcome o])) = groups.length + 1 := by
        have := h₁.frames
        rw [hp] at this
        exact this.2
      have hsplit : acts ++ (acts' ++ .outcome o :: (t.onOutcome q o).2)
          = (acts ++ (acts' ++ [.outcome o])) ++ (t.onOutcome q o).2 := by simp
      rw [hsplit]
      obtain ⟨hafter, hno⟩ := Task.onOutcome_after t q o
      generalize t.onOutcome q o = res at hafter hno
      cases hafter with
      | last ht hl => exact ⟨groups, rs ++ rs', _, h₁.close hno (by rw [ht]; exact hl)⟩
      | again ht => exact ⟨_, [], [], h₁.retry hk₁ ht⟩
  | orphaned hp | stopped hp =>
      rw [hp] at hf
      obtain ⟨rfl, rfl, hk⟩ := hf
      exact ⟨groups, [], _, h.close (by simp) (.inl rfl)⟩
  | finished hp =>
      rw [hp] at hf
      obtain ⟨rfl, rfl, hk⟩ := hf
      exact ⟨groups, [], _, h.close (by simp) (.inr (.inl rfl))⟩
  | buffers hp =>
      rw [hp] at hf
      obtain ⟨rfl, rfl, hk⟩ := hf
      exact ⟨groups, [], [], h.close (by simp) (by rw [hp]; exact ⟨rfl, rfl, hk⟩)⟩
  | dropped hp =>
      rw [hp] at hf
      rw [List.append_nil]
      exact ⟨groups, rs, last, h.told, hf, h.heard, h.hears⟩

end Framed

/-! ## The whole run -/

/-- Nothing has been queued, or a `Reconnecting` last. -/
def Announced (acts : List Act) : Prop :=
  messages acts = [] ∨ ∃ ms reason, messages acts = ms ++ [.reconnecting reason]

/-- Where a connection is opened, it has been announced. -/
theorem Framed.announced {acts new : List Act} {t t' : Task} {e : Event}
    {groups : List (List SonioxResponse × String)} {rs : List SonioxResponse} {last : List Inbound}
    (h : Framed acts t groups rs last) (ho : t.own e = some (t', new)) (hmem : .connect ∈ new) :
    new = [.connect] ∧ Announced acts := by
  have hf := h.frames
  cases Task.own_moves ho with
  | started hp | slept hp =>
      rw [hp] at hf
      obtain ⟨rfl, rfl, -⟩ := hf
      refine ⟨rfl, ?_⟩
      rw [Announced, h.told, List.map_nil, List.append_nil, List.append_nil]
      rcases List.eq_nil_or_concat groups with rfl | ⟨gs, g, rfl⟩
      · exact .inl rfl
      · rw [List.concat_eq_append]
        exact .inr ⟨_, _, ofGroups_snoc gs g.1 g.2⟩
  | goes hp hm => exact absurd hmem hm.connect_not_mem
  | ends hp hm =>
      rcases List.mem_append.mp hmem with hmem | hmem
      · exact absurd hmem hm.connect_not_mem
      · rcases List.mem_cons.mp hmem with hmem | hmem
        · cases hmem
        · exact absurd hmem (Task.onOutcome_after t _ _).2
  | _ => simp at hmem

theorem framed_run {es : List Event} {t : Task} {acts : List Act}
    (h : Mealy.run Task.step .new es = some (t, acts)) :
    (∃ groups rs last, Framed acts t groups rs last) ∧ Mealy.Before .connect Announced acts := by
  refine Mealy.run_sound (P := fun _ t acts => (∃ groups rs last, Framed acts t groups rs last) ∧
    Mealy.Before .connect Announced acts) ?_ ?_ h
  · rintro es t acts e t' new ⟨⟨groups, rs, last, hf⟩, hb⟩ hs
    simp only [Task.step] at hs
    cases hsend : t.sender e with
    | some t₁ =>
        simp only [hsend, Option.some.injEq, Prod.mk.injEq] at hs
        obtain ⟨rfl, rfl⟩ := hs
        obtain ⟨q, rfl⟩ := Task.sender_phase hsend
        rw [List.append_nil]
        exact ⟨⟨groups, rs, last, hf.told, hf.frames, hf.heard, hf.hears⟩, hb⟩
    | none =>
        simp only [hsend] at hs
        exact ⟨hf.own hs, hb.append fun hmem => hf.announced hs hmem⟩
  · exact ⟨⟨[], [], [], rfl, ⟨rfl, rfl, rfl⟩, by simp, by simp⟩, .nil⟩

end Larmindon.Soniox
