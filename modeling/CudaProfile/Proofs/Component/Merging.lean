import Mathlib
import CudaProfile.Component.ClusteringFilter
import CudaProfile.Proofs.AddressBuffer
import CudaProfile.Proofs.Component.Handling
import CudaProfile.Proofs.Lists
/-!
# What a filter makes of its children

A filter sends one buffer for as many as it has children, and holds the counts
of the others until then. If every child sends its buffer and tells afterwards
that its threads have finished, then the order in which the children do so
makes no difference to the counts, and the buffer is sent before the end.
-/

namespace CudaProfile
namespace ClusteringFilter

open AddressBuffer Component

/-! ## Kinds of messages -/

def buffer? : Message → Option AddressBuffer
  | .addressBuffer buffer => some buffer
  | _ => none

def finished? : Message → Option Bool
  | .threadsFinished finished => some finished
  | _ => none

def passes : Message → Bool
  | .addressBuffer _ | .threadsFinished _ => false
  | _ => true

def buffersOf (messages : List Message) : List AddressBuffer :=
  messages.filterMap buffer?

def endsOf (messages : List Message) : List Bool :=
  messages.filterMap finished?

def othersOf (messages : List Message) : List Message :=
  messages.filter passes

theorem kind_cases (message : Message) :
    (∃ buffer, message = .addressBuffer buffer) ∨
      (∃ finished, message = .threadsFinished finished) ∨
        passes message = true := by
  cases message with
  | addressBuffer buffer =>
      exact Or.inl ⟨buffer, rfl⟩
  | threadsFinished finished =>
      exact Or.inr (Or.inl ⟨finished, rfl⟩)
  | _ =>
      exact Or.inr (Or.inr rfl)

theorem buffer?_of_passes {message : Message} (h : passes message = true) :
    buffer? message = none := by
  cases message with
  | addressBuffer buffer =>
      cases h
  | _ =>
      rfl

theorem finished?_of_passes {message : Message} (h : passes message = true) :
    finished? message = none := by
  cases message with
  | threadsFinished finished =>
      cases h
  | _ =>
      rfl

section Kinds

variable {message : Message} {before rest : List Message}

theorem buffersOf_append :
    buffersOf (before ++ rest) = buffersOf before ++ buffersOf rest :=
  List.filterMap_append

theorem endsOf_append :
    endsOf (before ++ rest) = endsOf before ++ endsOf rest :=
  List.filterMap_append

theorem buffersOf_cons_of_passes (h : passes message = true) :
    buffersOf (message :: rest) = buffersOf rest :=
  List.filterMap_cons_none (buffer?_of_passes h)

theorem endsOf_cons_of_passes (h : passes message = true) :
    endsOf (message :: rest) = endsOf rest :=
  List.filterMap_cons_none (finished?_of_passes h)

theorem buffersOf_cons_buffer {buffer : AddressBuffer} :
    buffersOf (.addressBuffer buffer :: rest) = buffer :: buffersOf rest :=
  rfl

theorem endsOf_cons_end {finished : Bool} :
    endsOf (.threadsFinished finished :: rest) = finished :: endsOf rest :=
  rfl

end Kinds

/-! ## Single messages -/

section Steps

variable {s : ClusteringFilter}

theorem handle_of_passes {message : Message} (h : passes message = true) :
    handle s message = .send s [message] := by
  cases message with
  | addressBuffer buffer =>
      cases h
  | threadsFinished finished =>
      cases h
  | _ =>
      rfl

theorem handle_buffer_last (h : s.reported + 1 = s.fanIn)
    (buffer : AddressBuffer) :
    handle s (.addressBuffer buffer) =
      .send { s with buffer := .empty, reported := 0 }
        [.addressBuffer (s.buffer.merge buffer)] :=
  if_pos h

theorem handle_buffer_held (h : s.reported + 1 ≠ s.fanIn)
    (buffer : AddressBuffer) :
    handle s (.addressBuffer buffer) =
      .quiet { s with
        buffer := s.buffer.merge buffer, reported := s.reported + 1 } :=
  if_neg h

theorem handle_end_last (h : s.finished + 1 = s.fanIn) (finished : Bool) :
    handle s (.threadsFinished finished) =
      .send { s with finished := 0, allFinished := true }
        [.threadsFinished (s.allFinished && finished)] :=
  if_pos h

theorem handle_end_held (h : s.finished + 1 ≠ s.fanIn) (finished : Bool) :
    handle s (.threadsFinished finished) =
      .quiet { s with
        finished := s.finished + 1
        allFinished := s.allFinished && finished } :=
  if_neg h

end Steps

/-! ## Conservation of counts -/

/-- What a filter sent and what it holds, by what it got. -/
structure Balanced (s : ClusteringFilter) (messages : List Message) : Prop where
  number : (buffersOf (sent s messages)).length =
    (s.reported + (buffersOf messages).length) / s.fanIn
  counts : ∀ x,
    (s.buffer.count x).toNat + countIn (buffersOf messages) x < 2 ^ 64 →
      countIn (buffersOf (sent s messages)) x +
          ((after s messages).buffer.count x).toNat =
        (s.buffer.count x).toNat + countIn (buffersOf messages) x

section Balance

variable {s : ClusteringFilter} {rest : List Message}

theorem balanced_nil (h : s.reported < s.fanIn) : Balanced s [] := by
  constructor
  · exact (Nat.div_eq_of_lt h).symm
  · intro x _
    exact Nat.add_comm _ _

theorem Balanced.pass (h : Balanced s rest) {message : Message}
    (hpasses : passes message = true) : Balanced s (message :: rest) := by
  have hhandle := handle_of_passes (s := s) hpasses
  have hreceived : buffersOf (message :: rest) = buffersOf rest :=
    buffersOf_cons_of_passes hpasses
  have hsent : buffersOf (sent s (message :: rest)) =
      buffersOf (sent s rest) := by
    rw [sent_of_send hhandle]
    exact buffersOf_cons_of_passes hpasses
  constructor
  · rw [hsent, hreceived]
    exact h.number
  · rw [hsent, hreceived, after_of_send hhandle]
    exact h.counts

theorem Balanced.finish {finished : Bool}
    (h : Balanced (handle s (.threadsFinished finished)).state rest) :
    Balanced s (.threadsFinished finished :: rest) := by
  have hstep : ∃ s' messages,
      handle s (.threadsFinished finished) = .send s' messages ∧
        buffersOf messages = [] ∧ s'.fanIn = s.fanIn ∧
        s'.buffer = s.buffer ∧ s'.reported = s.reported := by
    by_cases hlast : s.finished + 1 = s.fanIn
    · exact ⟨_, _, handle_end_last hlast finished, rfl, rfl, rfl, rfl⟩
    · exact ⟨_, [], handle_end_held hlast finished, rfl, rfl, rfl, rfl⟩
  rcases hstep with ⟨s', messages, hhandle, hnone, hfanIn, hbuffer, hreported⟩
  have hsent : buffersOf (sent s (.threadsFinished finished :: rest)) =
      buffersOf (sent s' rest) := by
    rw [sent_of_send hhandle, buffersOf_append, hnone, List.nil_append]
  rw [hhandle] at h
  change Balanced s' rest at h
  constructor
  · rw [hsent, h.number, hfanIn, hreported]
    rfl
  · intro x hbound
    rw [hsent, after_of_send hhandle, h.counts x (by rw [hbuffer]; exact hbound),
      hbuffer]
    rfl

theorem Balanced.buffer_last (hlast : s.reported + 1 = s.fanIn)
    {buffer : AddressBuffer}
    (h : Balanced { s with buffer := .empty, reported := 0 } rest) :
    Balanced s (.addressBuffer buffer :: rest) := by
  have hhandle := handle_buffer_last hlast buffer
  constructor
  · have hnumber := h.number
    change _ = (0 + _) / s.fanIn at hnumber
    have hreceived : s.reported + ((buffersOf rest).length + 1) =
        s.fanIn + (buffersOf rest).length := by
      omega
    rw [sent_of_send hhandle, List.singleton_append, buffersOf_cons_buffer,
      buffersOf_cons_buffer, List.length_cons, List.length_cons, hnumber,
      hreceived, Nat.zero_add, Nat.add_div_left _ (by omega)]
  · intro x hbound
    rw [buffersOf_cons_buffer, countIn_cons] at hbound
    have hmerged := toNat_count_merge (b := s.buffer) (c := buffer) (x := x)
      (by omega)
    have hrest := h.counts x
    change (0 : Nat) + _ < _ → _ = 0 + _ at hrest
    rw [sent_of_send hhandle, after_of_send hhandle, List.singleton_append,
      buffersOf_cons_buffer, buffersOf_cons_buffer, countIn_cons, countIn_cons,
      hmerged, Nat.add_assoc, hrest (by omega)]
    omega

theorem Balanced.buffer_held (hheld : s.reported + 1 ≠ s.fanIn)
    {buffer : AddressBuffer}
    (h : Balanced { s with
      buffer := s.buffer.merge buffer, reported := s.reported + 1 } rest) :
    Balanced s (.addressBuffer buffer :: rest) := by
  have hhandle := handle_buffer_held hheld buffer
  constructor
  · rw [sent_of_quiet hhandle, h.number, buffersOf_cons_buffer,
      List.length_cons, Nat.add_assoc, Nat.add_comm 1]
  · intro x hbound
    rw [buffersOf_cons_buffer, countIn_cons] at hbound
    have hmerged := toNat_count_merge (b := s.buffer) (c := buffer) (x := x)
      (by omega)
    have hrest := h.counts x
    simp only [hmerged] at hrest
    rw [sent_of_quiet hhandle, after_of_quiet hhandle, buffersOf_cons_buffer,
      countIn_cons, hrest (by omega), Nat.add_assoc]

theorem balanced_of_lt (h : s.reported < s.fanIn) (messages : List Message) :
    Balanced s messages := by
  induction messages generalizing s with
  | nil =>
      exact balanced_nil h
  | cons message rest ih =>
      rcases kind_cases message with ⟨buffer, rfl⟩ | ⟨finished, rfl⟩ | hpasses
      · by_cases hlast : s.reported + 1 = s.fanIn
        · exact .buffer_last hlast (ih (Nat.lt_of_le_of_lt (Nat.zero_le _) h))
        · exact .buffer_held hlast (ih (Nat.lt_of_le_of_ne h hlast))
      · apply Balanced.finish
        apply ih
        by_cases hlast : s.finished + 1 = s.fanIn
        · rw [handle_end_last hlast]
          exact h
        · rw [handle_end_held hlast]
          exact h
      · exact (ih h).pass hpasses

end Balance

/-! ## Waiting for the last child -/

def waiting (s : ClusteringFilter) (messages : List Message) :
    ClusteringFilter where
  fanIn := s.fanIn
  buffer := (buffersOf messages).foldl AddressBuffer.merge s.buffer
  reported := s.reported + (buffersOf messages).length
  finished := s.finished + (endsOf messages).length
  allFinished := s.allFinished && (endsOf messages).all id

section Waiting

variable {s : ClusteringFilter} {rest : List Message}

theorem waiting_of_none {messages : List Message}
    (hbuffers : buffersOf messages = []) (hends : endsOf messages = []) :
    waiting s messages = s := by
  unfold waiting
  rw [hbuffers, hends, List.all_nil, Bool.and_true]
  rfl

theorem waiting_buffer {buffer : AddressBuffer} :
    waiting s (.addressBuffer buffer :: rest) =
      waiting { s with
        buffer := s.buffer.merge buffer, reported := s.reported + 1 } rest := by
  unfold waiting
  rw [buffersOf_cons_buffer, List.length_cons, Nat.add_comm _ 1,
    ← Nat.add_assoc]
  rfl

theorem waiting_end {finished : Bool} :
    waiting s (.threadsFinished finished :: rest) =
      waiting { s with
        finished := s.finished + 1
        allFinished := s.allFinished && finished } rest := by
  unfold waiting
  rw [endsOf_cons_end, List.length_cons, Nat.add_comm _ 1, ← Nat.add_assoc,
    List.all_cons, ← Bool.and_assoc]
  rfl

theorem waiting_pass {message : Message} (h : passes message = true) :
    waiting s (message :: rest) = waiting s rest := by
  unfold waiting
  rw [buffersOf_cons_of_passes h, endsOf_cons_of_passes h]

theorem run_waiting (messages : List Message)
    (hbuffers : s.reported + (buffersOf messages).length < s.fanIn)
    (hends : s.finished + (endsOf messages).length < s.fanIn) :
    sent s messages = othersOf messages ∧
      after s messages = waiting s messages := by
  induction messages generalizing s with
  | nil =>
      exact ⟨rfl, (waiting_of_none rfl rfl).symm⟩
  | cons message rest ih =>
      rcases kind_cases message with ⟨buffer, rfl⟩ | ⟨finished, rfl⟩ | hpasses
      · rw [buffersOf_cons_buffer, List.length_cons] at hbuffers
        have hhandle := handle_buffer_held (s := s) (by omega) buffer
        rw [sent_of_quiet hhandle, after_of_quiet hhandle, waiting_buffer]
        exact ih (by simp only; omega) hends
      · rw [endsOf_cons_end, List.length_cons] at hends
        have hhandle := handle_end_held (s := s) (by omega) finished
        rw [sent_of_quiet hhandle, after_of_quiet hhandle, waiting_end]
        exact ih hbuffers (by simp only; omega)
      · have hhandle := handle_of_passes (s := s) hpasses
        rw [buffersOf_cons_of_passes hpasses] at hbuffers
        rw [endsOf_cons_of_passes hpasses] at hends
        rw [sent_of_send hhandle, after_of_send hhandle, waiting_pass hpasses,
          othersOf, List.filter_cons_of_pos hpasses]
        rcases ih hbuffers hends with ⟨hsent, hafter⟩
        exact ⟨congrArg _ hsent, hafter⟩

end Waiting

theorem fanIn_new {n : Nat} (hn : 1 ≤ n) : (new n).fanIn = n :=
  Nat.max_eq_left hn

theorem run_new {n : Nat} (hn : 1 ≤ n) (messages : List Message)
    (hbuffers : (buffersOf messages).length < n)
    (hends : (endsOf messages).length < n) :
    sent (new n) messages = othersOf messages ∧
      after (new n) messages = waiting (new n) messages := by
  apply run_waiting
  · rw [fanIn_new hn]
    exact Nat.lt_of_le_of_lt (Nat.le_of_eq (Nat.zero_add _)) hbuffers
  · rw [fanIn_new hn]
    exact Nat.lt_of_le_of_lt (Nat.le_of_eq (Nat.zero_add _)) hends

/-! ## Once around -/

/-- Messages with as many buffers and ends as there are children, of which the
last buffer comes before the last end. -/
structure Round (n : Nat) where
  before : List Message
  last : AddressBuffer
  between : List Message
  ended : Bool
  rest : List Message
  number : (buffersOf before).length + 1 = n
  number_ends : (endsOf before).length + (endsOf between).length + 1 = n
  between_buffers : buffersOf between = []
  rest_buffers : buffersOf rest = []
  rest_ends : endsOf rest = []

namespace Round

variable {n : Nat} (r : Round n)

def messages : List Message :=
  r.before ++ .addressBuffer r.last ::
    (r.between ++ .threadsFinished r.ended :: r.rest)

def answer (buffer : AddressBuffer) (finished : Bool) : List Message :=
  othersOf r.before ++ .addressBuffer buffer ::
    (othersOf r.between ++ .threadsFinished finished :: othersOf r.rest)

theorem buffersOf_messages :
    buffersOf r.messages = buffersOf r.before ++ [r.last] := by
  unfold messages
  rw [buffersOf_append, buffersOf_cons_buffer, buffersOf_append,
    r.between_buffers]
  exact congrArg (fun rest => _ ++ _ :: rest) r.rest_buffers

theorem endsOf_messages :
    endsOf r.messages = endsOf r.before ++ (endsOf r.between ++ [r.ended]) := by
  unfold messages
  rw [endsOf_append]
  change _ ++ endsOf (r.between ++ _) = _
  rw [endsOf_append, endsOf_cons_end, r.rest_ends]

/-- At the last buffer the counts of all are sent, at the last end the
conjunction of all, and then the filter is as new. -/
theorem run :
    sent (new n) r.messages = r.answer
        ((buffersOf r.messages).foldl AddressBuffer.merge .empty)
        ((endsOf r.messages).all id) ∧
      after (new n) r.messages = new n := by
  have hnumber := r.number
  have hends := r.number_ends
  have hfanIn : (new n).fanIn = n := fanIn_new (by omega)
  -- Before the last buffer at least one end is missing too.
  rcases run_new (n := n) (by omega) r.before (by omega) (by omega) with
    ⟨hsent₁, hafter₁⟩
  let s₁ := waiting (new n) r.before
  have hreported : s₁.reported + 1 = s₁.fanIn := by
    change 0 + _ + 1 = (new n).fanIn
    omega
  let s₂ : ClusteringFilter := { s₁ with buffer := .empty, reported := 0 }
  have hbuffer : handle s₁ (.addressBuffer r.last) = .send s₂ _ :=
    handle_buffer_last hreported r.last
  have hmore : s₂.reported + (buffersOf r.between).length < s₂.fanIn := by
    rw [r.between_buffers]
    change 0 + 0 < (new n).fanIn
    omega
  have hmore_ends : s₂.finished + (endsOf r.between).length < s₂.fanIn := by
    change 0 + _ + _ < (new n).fanIn
    omega
  rcases run_waiting r.between hmore hmore_ends with ⟨hsent₂, hafter₂⟩
  let s₃ := waiting s₂ r.between
  have hfinished : s₃.finished + 1 = s₃.fanIn := by
    change 0 + _ + _ + 1 = (new n).fanIn
    omega
  have hnew : { s₃ with finished := 0, allFinished := true } = new n := by
    change (⟨_, (buffersOf r.between).foldl _ _,
      0 + (buffersOf r.between).length, _, _⟩ : ClusteringFilter) = _
    rw [r.between_buffers]
    rfl
  have hend := handle_end_last hfinished r.ended
  rw [hnew] at hend
  rcases run_new (n := n) (by omega) r.rest
    (by rw [r.rest_buffers, List.length_nil]; omega)
    (by rw [r.rest_ends, List.length_nil]; omega) with ⟨hsent₃, hafter₃⟩
  constructor
  · rw [r.buffersOf_messages, r.endsOf_messages]
    unfold messages answer
    rw [sent_append, hsent₁, hafter₁, sent_of_send hbuffer, sent_append,
      hsent₂, hafter₂, sent_of_send hend, hsent₃, List.foldl_append,
      List.all_append, List.all_append, ← Bool.and_assoc]
    simp [s₁, s₂, s₃, waiting, new]
  · unfold messages
    rw [after_append, hafter₁, after_of_send hbuffer, after_append, hafter₂,
      after_of_send hend, hafter₃]
    exact waiting_of_none r.rest_buffers r.rest_ends

end Round

/-! ## Children -/

/-- What a child sends: a buffer, later an end, and messages that pass. -/
def Reports (stream : List Message) (buffer : AddressBuffer)
    (finished : Bool) : Prop :=
  ∃ before between rest,
    (∀ message ∈ before ++ (between ++ rest), passes message = true) ∧
      stream = before ++ .addressBuffer buffer ::
        (between ++ .threadsFinished finished :: rest)

/-- Messages come from streams, and those of one stream are in its order. -/
def Interleaves {n : Nat} (streams : Fin n → List Message)
    (messages : List Message) : Prop :=
  ∃ origin : List (Fin n × Message), origin.map Prod.snd = messages ∧
    ∀ i, (origin.filter fun m => m.1 = i).map Prod.snd = streams i

section Children

theorem buffersOf_eq_nil {messages : List Message}
    (h : ∀ message ∈ messages, passes message = true) :
    buffersOf messages = [] :=
  List.filterMap_eq_nil_iff.mpr fun message hmem =>
    buffer?_of_passes (h message hmem)

theorem endsOf_eq_nil {messages : List Message}
    (h : ∀ message ∈ messages, passes message = true) :
    endsOf messages = [] :=
  List.filterMap_eq_nil_iff.mpr fun message hmem =>
    finished?_of_passes (h message hmem)

variable {stream : List Message} {buffer : AddressBuffer} {finished : Bool}

theorem Reports.buffersOf_eq (h : Reports stream buffer finished) :
    buffersOf stream = [buffer] := by
  rcases h with ⟨before, between, rest, hpasses, rfl⟩
  rcases List.forall_mem_append.mp hpasses with ⟨hbefore, hlater⟩
  have hnone : buffersOf (between ++ .threadsFinished finished :: rest) = [] := by
    rw [buffersOf_append]
    change buffersOf between ++ buffersOf rest = []
    rw [← buffersOf_append]
    exact buffersOf_eq_nil hlater
  rw [buffersOf_append, buffersOf_cons_buffer, buffersOf_eq_nil hbefore, hnone]
  rfl

theorem Reports.endsOf_later (h : Reports stream buffer finished)
    {earlier later : List Message} {other : AddressBuffer}
    (hstream : stream = earlier ++ .addressBuffer other :: later) :
    endsOf earlier = [] ∧ endsOf later = [finished] := by
  rcases h with ⟨before, between, rest, hpasses, hone⟩
  have hnone : ∀ {messages : List Message},
      (∀ message ∈ messages, passes message = true) →
        Message.addressBuffer other ∉ messages := by
    intro messages hpasses hmem
    cases hpasses _ hmem
  rcases List.forall_mem_append.mp hpasses with ⟨hbefore, hlater⟩
  rcases List.forall_mem_append.mp hlater with ⟨hbetween, hrest⟩
  have hafter : Message.addressBuffer other ∉
      between ++ .threadsFinished finished :: rest := by
    simp [hnone hbetween, hnone hrest]
  rcases (List.append_cons_inj_of_notMem (hnone hbefore) hafter).mp
    (hone.symm.trans hstream) with ⟨rfl, _, rfl⟩
  refine ⟨endsOf_eq_nil hbefore, ?_⟩
  rw [endsOf_append, endsOf_cons_end, endsOf_eq_nil hbetween,
    endsOf_eq_nil hrest]
  rfl

theorem Reports.endsOf_eq (h : Reports stream buffer finished) :
    endsOf stream = [finished] := by
  rcases h with ⟨before, between, rest, hpasses, hone⟩
  rcases Reports.endsOf_later ⟨before, between, rest, hpasses, hone⟩ hone with
    ⟨hbefore, hlater⟩
  rw [hone, endsOf_append, hbefore]
  exact hlater

variable {n : Nat} {streams : Fin n → List Message} {messages : List Message}
  {buffers : Fin n → AddressBuffer} {ends : Fin n → Bool}

theorem Interleaves.perm_map (h : Interleaves streams messages) {β : Type}
    {f : Message → Option β} {value : Fin n → β}
    (hone : ∀ i, (streams i).filterMap f = [value i]) :
    (messages.filterMap f).Perm ((List.finRange n).map value) := by
  rcases h with ⟨origin, rfl, hstreams⟩
  have hparted := perm_flatMap_filter_of_mem Prod.fst (List.nodup_finRange n)
    fun (m : Fin n × Message) (_ : m ∈ origin) => List.mem_finRange m.1
  have hstream : ∀ i, [value i] =
      (origin.filter fun m => m.1 = i).filterMap fun m => f m.2 := by
    intro i
    rw [← hone i, ← hstreams i, List.filterMap_map]
    rfl
  have hvalues : (List.finRange n).map value = (List.finRange n).flatMap
      fun i => (origin.filter fun m => m.1 = i).filterMap fun m => f m.2 := by
    rw [List.map_eq_flatMap]
    exact congrArg (fun f => (List.finRange n).flatMap f) (funext hstream)
  rw [hvalues, List.filterMap_map, ← List.filterMap_flatMap]
  exact (hparted.filterMap fun m => f m.2).symm

/-- The child that is the last to send its buffer tells its end later, so there
is an end behind the last buffer. -/
theorem Interleaves.exists_last_buffer (h : Interleaves streams messages)
    (hsome : buffersOf messages ≠ [])
    (hreports : ∀ i, Reports (streams i) (buffers i) (ends i)) :
    ∃ before last later, messages = before ++ .addressBuffer last :: later ∧
      buffersOf later = [] ∧ endsOf later ≠ [] := by
  rcases h with ⟨origin, rfl, hstreams⟩
  rw [buffersOf, List.filterMap_map] at hsome
  rcases exists_filterMap_last hsome with
    ⟨before, ⟨i, message⟩, later, last, rfl, hlast, hnone⟩
  rcases kind_cases message with ⟨buffer, rfl⟩ | ⟨finished, rfl⟩ | hpasses
  · refine ⟨_, buffer, later.map Prod.snd, List.map_append, ?_, ?_⟩
    · rw [buffersOf, List.filterMap_map]
      exact hnone
    · have hstream : streams i =
          (before.filter fun m => m.1 = i).map Prod.snd ++
            .addressBuffer buffer ::
              (later.filter fun m => m.1 = i).map Prod.snd := by
        rw [← hstreams i]
        simp
      have hends := ((hreports i).endsOf_later hstream).2
      intro hnil
      have hsub := (List.filter_sublist (p := fun m => m.1 = i)
        (l := later)).map Prod.snd
      have hnone := hsub.filterMap finished?
      change (endsOf _).Sublist (endsOf _) at hnone
      rw [hends, hnil] at hnone
      cases hnone
  · cases hlast
  · rw [Function.comp_apply, buffer?_of_passes hpasses] at hlast
    cases hlast

theorem Interleaves.exists_round (h : Interleaves streams messages)
    (hn : 1 ≤ n)
    (hreports : ∀ i, Reports (streams i) (buffers i) (ends i)) :
    ∃ r : Round n, r.messages = messages := by
  have hbuffers :=
    (h.perm_map fun i => (hreports i).buffersOf_eq).length_eq
  have hends := (h.perm_map fun i => (hreports i).endsOf_eq).length_eq
  rw [List.length_map, List.length_finRange] at hbuffers hends
  change (buffersOf messages).length = n at hbuffers
  change (endsOf messages).length = n at hends
  rcases h.exists_last_buffer (List.ne_nil_of_length_pos (by omega)) hreports
    with ⟨before, last, later, rfl, hnone, hsome⟩
  rcases exists_filterMap_last hsome with
    ⟨between, message, rest, ended, rfl, hended, hrest⟩
  rcases kind_cases message with ⟨buffer, rfl⟩ | ⟨finished, rfl⟩ | hpasses
  · cases hended
  · rw [buffersOf_append] at hnone
    rcases List.append_eq_nil_iff.mp hnone with ⟨hbetween, hlater⟩
    refine ⟨⟨before, last, between, finished, rest, ?_, ?_, hbetween, hlater,
      hrest⟩, rfl⟩
    · rw [buffersOf_append, buffersOf_cons_buffer, buffersOf_append, hbetween,
        hlater] at hbuffers
      simpa using hbuffers
    · rw [endsOf_append] at hends
      change (endsOf before ++ endsOf (between ++ _)).length = n at hends
      have hrest' : endsOf rest = [] := hrest
      rw [endsOf_append, endsOf_cons_end, hrest'] at hends
      simpa [Nat.add_assoc] using hends
  · rw [finished?_of_passes hpasses] at hended
    cases hended

theorem countIn_map_finRange (buffers : Fin n → AddressBuffer) (x : Address) :
    countIn ((List.finRange n).map buffers) x =
      ∑ i, ((buffers i).count x).toNat := by
  rw [Fin.sum_univ_def, countIn, List.map_map]
  rfl

theorem all_map_finRange (ends : Fin n → Bool) :
    ((List.finRange n).map ends).all id = decide (∀ i, ends i = true) := by
  rw [Bool.eq_iff_iff]
  simp [List.mem_finRange]

end Children

/-- Messages are answered with one buffer of all counts at the last buffer, one
end at the last end, and otherwise with what passes. -/
def MergesOnce {n : Nat} (buffers : Fin n → AddressBuffer)
    (ends : Fin n → Bool) (messages : List Message) : Prop :=
  ∃ (r : Round n) (merged : AddressBuffer), r.messages = messages ∧
    sent (new n) messages = r.answer merged (decide (∀ i, ends i = true)) ∧
    after (new n) messages = new n ∧
    ∀ x, ∑ i, ((buffers i).count x).toNat < 2 ^ 64 →
      (merged.count x).toNat = ∑ i, ((buffers i).count x).toNat

/-- In whatever order children send their buffers and tell their ends, one
buffer comes out with the counts of all of them and later one end, which is
good if all theirs are. Of any messages at all, one buffer comes out for as many
as there are children, and no count is lost or doubled on the way. -/
theorem merges_children {n : Nat} (hn : 1 ≤ n) :
    (∀ streams messages buffers ends, Interleaves streams messages →
      (∀ i : Fin n, Reports (streams i) (buffers i) (ends i)) →
        MergesOnce buffers ends messages) ∧
    ∀ messages,
      (buffersOf (sent (new n) messages)).length =
        (buffersOf messages).length / n ∧
      ∀ x, countIn (buffersOf messages) x < 2 ^ 64 →
        countIn (buffersOf (sent (new n) messages)) x +
            ((after (new n) messages).buffer.count x).toNat =
          countIn (buffersOf messages) x := by
  constructor
  · intro streams messages buffers ends h hreports
    rcases h.exists_round hn hreports with ⟨r, rfl⟩
    have hbuffers := h.perm_map fun i => (hreports i).buffersOf_eq
    have hends := h.perm_map fun i => (hreports i).endsOf_eq
    rcases r.run with ⟨hsent, hafter⟩
    refine ⟨r, (buffersOf r.messages).foldl AddressBuffer.merge .empty, rfl, ?_,
      hafter, ?_⟩
    · rw [hsent, ← all_map_finRange, ← hends.all_eq]
      rfl
    · intro x hbound
      rw [← countIn_map_finRange, ← countIn_perm hbuffers] at hbound ⊢
      have hempty : (AddressBuffer.empty.count x).toNat = 0 := rfl
      rw [← buffersOf] at hbound ⊢
      rw [toNat_count_mergeAll (by omega), hempty, Nat.zero_add]
  · intro messages
    have hbalanced : Balanced (new n) messages := by
      apply balanced_of_lt
      rw [fanIn_new hn]
      exact hn
    have hnumber := hbalanced.number
    change _ = (0 + _) / _ at hnumber
    rw [Nat.zero_add, fanIn_new hn] at hnumber
    refine ⟨hnumber, ?_⟩
    intro x hbound
    have hcounts := hbalanced.counts x
    change 0 + _ < _ → _ = 0 + _ at hcounts
    rw [Nat.zero_add] at hcounts
    exact hcounts hbound

def lateChild : List (Fin 2 × Message) :=
  [(1, .triggerData true), (1, .addressBuffer (AddressBuffer.empty.add 16 4)),
    (1, .threadsFinished false),
    (0, .addressBuffer (AddressBuffer.empty.add 16 3)), (0, .triggerData false),
    (0, .threadsFinished true)]

theorem merges_children_late :
    MergesOnce
      (fun i : Fin 2 => AddressBuffer.empty.add 16 (if i = 0 then 3 else 4))
      (fun i => i = 0) (lateChild.map Prod.snd) := by
  have hreports : ∀ i : Fin 2, Reports
      ((lateChild.filter fun m => m.1 = i).map Prod.snd)
      (AddressBuffer.empty.add 16 (if i = 0 then 3 else 4)) (i = 0) := by
    rw [Fin.forall_fin_two]
    constructor
    · exact ⟨[], [.triggerData false], [], by simp [passes], rfl⟩
    · exact ⟨[.triggerData true], [], [], by simp [passes], rfl⟩
  exact (merges_children one_le_two).1 _ _ _ _
    ⟨lateChild, rfl, fun _ => rfl⟩ hreports

end ClusteringFilter
end CudaProfile
