import VllmProofs.Scheduler.Schedule
import VllmProofs.Scheduler.TableKeys

/-!
The board of a scheduler: its queues, the groups they refer to, the sequences with a block table
and the copies swapped out so far. What the scheduler does on the side leaves it as it is.
-/

namespace Vllm
open Exec

namespace Scheduler

variable {M β κ τ : Type} {kept : M → κ} {view : Scheduler M → τ}

structure Neutral (kept : M → κ) (view : Scheduler M → τ) : Prop where
  manager : ∀ s m, kept m = kept s.blockManager → view { s with blockManager := m } = view s
  clock : ∀ s clock, view { s with clock } = view s
  drawn : ∀ s drawn, view { s with drawn } = view s
  artificial : ∀ s n, view { s with artificialPreemptCnt := n } = view s
  delay : ∀ s latency now prompt,
    view { s with lastPromptLatency := latency, prevTime := now, prevPrompt := prompt } = view s
  finished : ∀ s ids, view { s with finishedRequestsIds := ids } = view s

theorem onManager_fixes (neutral : Neutral kept view) {method : Method M β} (fixes : Fixes kept method) :
    Fixes view (onManager method) :=
  Keeps.zoom fixes fun s u same => neutral.manager s u same

theorem group_fixes (g : GroupRef) : Fixes view (group g : Method (Scheduler M) _) :=
  Keeps.bind Keeps.get fun _ => Keeps.pure _

theorem time_fixes (neutral : Neutral kept view) : Fixes view (time : Method (Scheduler M) Time) := by
  intro s now t call
  cases call
  exact neutral.clock s _

theorem uniform_fixes (neutral : Neutral kept view) : Fixes view (uniform : Method (Scheduler M) ℚ) := by
  intro s u t call
  cases call
  exact neutral.drawn s _

theorem passedDelay_fixes (neutral : Neutral kept view) (now : Time) :
    Fixes view (passedDelay now : Method (Scheduler M) Bool) := by
  intro s passed t call
  unfold passedDelay at call
  simp only [get_bind, set_bind] at call
  cases earliest : (s.waiting.map fun g => (s.groups g).arrivalTime).min? with
  | none =>
    simp only [earliest] at call
    cases call
    exact neutral.delay s _ _ _
  | some earliestArrivalTime =>
    simp only [earliest] at call
    split at call
    · cases call
      exact neutral.delay s _ _ _
    · cases call
      exact neutral.delay s _ _ _

theorem initMultiStep_fixes (seqGroup : SequenceGroup) (k : ℕ) (enableChunking : Bool) :
    Fixes view (initMultiStepFromLookaheadSlots seqGroup k enableChunking : Method (Scheduler M) Unit) := by
  unfold initMultiStepFromLookaheadSlots
  refine Keeps.bind Keeps.get fun s => Keeps.ite (Keeps.pure _) (Keeps.ite ?_ ?_)
  · exact assertThat_keeps _
  · refine Keeps.bind ?_ fun _ => ?_
    · exact assertThat_keeps _
    · exact assertThat_keeps _

theorem preemptsArtificially_fixes (neutral : Neutral kept view) :
    Fixes view (preemptsArtificially : Method (Scheduler M) Bool) := by
  unfold preemptsArtificially
  exact Keeps.bind Keeps.get fun s => Keeps.ite (Keeps.map (uniform_fixes neutral)) (Keeps.pure _)

theorem addFinishedRequest_fixes (neutral : Neutral kept view) (g : GroupRef) :
    Fixes view (addFinishedRequest g : Method (Scheduler M) Unit) :=
  Keeps.bind (group_fixes g) fun _ => Keeps.modify fun s => neutral.finished s _

variable [BlockSpaceManager M] (neutral : Neutral kept view) (unaffected : Unaffected kept)

include neutral unaffected

theorem canAppendSlots_fixes (g : GroupRef) (enableChunking : Bool) :
    Fixes view (canAppendSlots g enableChunking : Method (Scheduler M) Bool) := by
  unfold canAppendSlots
  refine Keeps.bind (preemptsArtificially_fixes neutral) fun preempted => Keeps.ite ?_ ?_
  · exact Keeps.bind (Keeps.modify fun s => neutral.artificial s _) fun _ => Keeps.pure _
  · refine Keeps.bind Keeps.get fun s => Keeps.bind (group_fixes g) fun seqGroup => Keeps.ite ?_ ?_
    · refine Keeps.bind ?_ fun _ => onManager_fixes neutral (unaffected.canAppendSlots _ _)
      exact assertThat_keeps _
    · exact onManager_fixes neutral (unaffected.canAppendSlots _ _)

theorem appendSlots_fixes (g : GroupRef) (enableChunking : Bool) :
    Fixes view (appendSlots g enableChunking : Method (Scheduler M) _) := by
  unfold appendSlots
  refine Keeps.bind (group_fixes g) fun seqGroup => Keeps.bind Keeps.get fun s => ?_
  refine Keeps.bind (initMultiStep_fixes _ _ _) fun _ => Keeps.bind ?_ fun _ => Keeps.pure _
  exact Keeps.mapM (fun seq => onManager_fixes neutral (unaffected.appendSlots _ _)) _

theorem accessSeq_fixes (now : Time) (seq : Sequence) :
    Fixes view (accessSeq now seq : Method (Scheduler M) _) :=
  Keeps.bind (onManager_fixes neutral (unaffected.getBlockTable _)) fun _ =>
    Keeps.bind (onManager_fixes neutral (unaffected.accessAllBlocksInSeq _ _)) fun _ => Keeps.pure _

theorem markComputed_fixes (scheduled : ScheduledSequenceGroup) :
    Fixes view (markComputed scheduled : Method (Scheduler M) Unit) :=
  Keeps.bind (group_fixes _) fun _ => onManager_fixes neutral (unaffected.markBlocksAsComputed _ _)

end Scheduler

namespace Scheduling
open Scheduler

variable {M β κ τ : Type} {kept : M → κ} {view : Scheduler M → τ}

def through (view : Scheduler M → τ) (s : Scheduling M) : τ := view s.scheduler

theorem onScheduler_fixes {method : Method (Scheduler M) β} (fixes : Fixes view method) :
    Fixes (through view) (onScheduler method) := Keeps.zoom fixes fun _ _ same => same

theorem onBudget_fixes (method : Method SchedulingBudget β) :
    Fixes (through view) (onBudget method : Method (Scheduling M) β) := .apart method fun _ _ => rfl

theorem getScheduler_fixes : Fixes (through view) (getScheduler : Method (Scheduling M) _) :=
  onScheduler_fixes Keeps.get

theorem modifyLoras_fixes (f : Finset ℕ → Finset ℕ) :
    Fixes (through view) (modifyLoras f : Method (Scheduling M) Unit) := Keeps.modify fun _ => rfl

theorem addLora_fixes (loraIntId : ℕ) :
    Fixes (through view) (addLora loraIntId : Method (Scheduling M) Unit) :=
  Keeps.ite (modifyLoras_fixes _) (Keeps.pure _)

theorem countAdapter_fixes (seqGroup : SequenceGroup) :
    Fixes (through view) (countAdapter seqGroup : Method (Scheduling M) Unit) := by
  unfold countAdapter
  exact Keeps.bind Keeps.get fun s => Keeps.ite (addLora_fixes _) (Keeps.pure _)

theorem loraIsFull_fixes (seqGroup : SequenceGroup) :
    Fixes (through view) (loraIsFull seqGroup : Method (Scheduling M) Bool) := by
  intro s full t call
  unfold loraIsFull at call
  simp only [get_bind] at call
  cases limit : s.scheduler.maxLoras with
  | none =>
    simp only [limit] at call
    cases call
    rfl
  | some maxLoras =>
    cases loras : s.currLoras with
    | none =>
      simp only [limit, loras] at call
      cases call
    | some currLoras =>
      simp only [limit, loras] at call
      cases call
      rfl

theorem getPromptLimit_fixes (config : SchedulerConfig) (seqGroup : SequenceGroup) :
    Fixes (through view) (getPromptLimit config seqGroup : Method (Scheduling M) ℤ) := by
  unfold getPromptLimit
  refine Keeps.ite (Keeps.bind ?_ fun _ => Keeps.pure _) (Keeps.pure _)
  exact assertThat_keeps _

theorem releaseBudget_fixes (seqGroup : SequenceGroup) (numTokens : ℤ) :
    Fixes (through view) (releaseBudget seqGroup numTokens : Method (Scheduling M) Unit) :=
  Keeps.bind (onBudget_fixes _) fun _ => onBudget_fixes _

theorem withdraw_fixes (g : GroupRef) (numRunningTokens : ℤ) :
    Fixes (through view) (withdraw g numRunningTokens : Method (Scheduling M) Unit) := by
  unfold withdraw
  refine Keeps.bind (onScheduler_fixes (group_fixes g)) fun seqGroup => ?_
  refine Keeps.bind (releaseBudget_fixes _ _) fun _ => Keeps.ite (modifyLoras_fixes _) (Keeps.pure _)

theorem fitsBudget_fixes (numNewTokensUncached numNewSeqs : ℤ) :
    Fixes (through view) (fitsBudget numNewTokensUncached numNewSeqs : Method (Scheduling M) Bool) :=
  Keeps.ite (Keeps.pure _) (onBudget_fixes _)

theorem countScheduled_fixes (seqGroup : SequenceGroup) (numRunningTokens : ℤ) (enableChunking : Bool) :
    Fixes (through view)
      (countScheduled seqGroup numRunningTokens enableChunking : Method (Scheduling M) Unit) :=
  Keeps.bind (onBudget_fixes _) fun _ => Keeps.ite (onBudget_fixes _) (Keeps.pure _)

theorem delayHasPassed_fixes (neutral : Neutral kept view) :
    Fixes view (delayHasPassed : Method (Scheduler M) Bool) :=
  Keeps.bind (time_fixes neutral) (passedDelay_fixes neutral)

theorem checkBudget_fixes : Fixes (through view) (checkBudget : Method (Scheduling M) Unit) := by
  unfold checkBudget
  refine Keeps.bind Keeps.get fun s => Keeps.bind ?_ fun _ => ?_
  · exact assertThat_keeps _
  · exact assertThat_keeps _

variable [BlockSpaceManager M]

theorem prepare_fixes (neutral : Neutral kept view) (unaffected : Unaffected kept) (g : GroupRef)
    (seqGroup : SequenceGroup) (enableChunking : Bool) :
    Fixes (through view) (prepare g seqGroup enableChunking : Method (Scheduling M) Unit) := by
  unfold prepare
  refine Keeps.bind getScheduler_fixes fun s => Keeps.bind (Keeps.modify fun _ => rfl) fun _ => ?_
  refine Keeps.ite (Keeps.bind (onScheduler_fixes (appendSlots_fixes neutral unaffected _ _)) fun cows => ?_) ?_
  · exact assertThat_keeps _
  · exact onScheduler_fixes (initMultiStep_fixes _ _ _)

end Scheduling
end Vllm

namespace Vllm
open Exec

structure Board where
  groups : GroupRef → SequenceGroup
  waiting : List GroupRef
  running : List GroupRef
  swapped : List GroupRef
  asyncStopped : List GroupRef
  tables : Set SeqId
  copies : List (BlockId × BlockId)
  schedulerConfig : SchedulerConfig

namespace Scheduler

variable {M β : Type} [BlockSpaceManager M] [LawfulBlockSpaceManager M]

def board (s : Scheduler M) : Board where
  groups := s.groups
  waiting := s.waiting
  running := s.running
  swapped := s.swapped
  asyncStopped := s.asyncStopped
  tables := LawfulBlockSpaceManager.tables s.blockManager
  copies := s.copies
  schedulerConfig := s.schedulerConfig

theorem neutral_board : Neutral LawfulBlockSpaceManager.tables (board : Scheduler M → Board) where
  manager s m same := by
    unfold board
    rw [same]
  clock _ _ := rfl
  drawn _ _ := rfl
  artificial _ _ := rfl
  delay _ _ _ _ := rfl
  finished _ _ := rfl

theorem onManager_board {method : Method M β} (kept : Fixes LawfulBlockSpaceManager.tables method) :
    Fixes board (onManager method) := onManager_fixes neutral_board kept

theorem group_board (g : GroupRef) : Fixes board (group g : Method (Scheduler M) _) := group_fixes g

theorem time_board : Fixes board (time : Method (Scheduler M) Time) := time_fixes neutral_board

theorem canAppendSlots_board (g : GroupRef) (enableChunking : Bool) :
    Fixes board (canAppendSlots g enableChunking : Method (Scheduler M) Bool) :=
  canAppendSlots_fixes neutral_board LawfulBlockSpaceManager.unaffected g enableChunking

theorem appendSlots_board (g : GroupRef) (enableChunking : Bool) :
    Fixes board (appendSlots g enableChunking : Method (Scheduler M) _) :=
  appendSlots_fixes neutral_board LawfulBlockSpaceManager.unaffected g enableChunking

theorem addFinishedRequest_board (g : GroupRef) :
    Fixes board (addFinishedRequest g : Method (Scheduler M) Unit) := addFinishedRequest_fixes neutral_board g

end Scheduler

namespace Scheduling
open Scheduler

variable {M β : Type} [BlockSpaceManager M] [LawfulBlockSpaceManager M]

def board (s : Scheduling M) : Board := s.scheduler.board

theorem onScheduler_board {method : Method (Scheduler M) β} (kept : Fixes Scheduler.board method) :
    Fixes board (onScheduler method) := onScheduler_fixes kept

theorem onBudget_board (method : Method SchedulingBudget β) :
    Fixes board (onBudget method : Method (Scheduling M) β) := onBudget_fixes method

theorem getScheduler_board : Fixes board (getScheduler : Method (Scheduling M) _) := getScheduler_fixes

theorem addLora_board (loraIntId : ℕ) : Fixes board (addLora loraIntId : Method (Scheduling M) Unit) :=
  addLora_fixes loraIntId

theorem countAdapter_board (seqGroup : SequenceGroup) :
    Fixes board (countAdapter seqGroup : Method (Scheduling M) Unit) := countAdapter_fixes seqGroup

theorem loraIsFull_board (seqGroup : SequenceGroup) :
    Fixes board (loraIsFull seqGroup : Method (Scheduling M) Bool) := loraIsFull_fixes seqGroup

theorem getPromptLimit_board (config : SchedulerConfig) (seqGroup : SequenceGroup) :
    Fixes board (getPromptLimit config seqGroup : Method (Scheduling M) ℤ) :=
  getPromptLimit_fixes config seqGroup

theorem newTokensOfSeq_board (seq : Sequence) :
    Fixes board (newTokensOfSeq seq : Method (Scheduling M) (ℤ × ℤ)) := by
  unfold newTokensOfSeq
  refine Keeps.ite (Keeps.pure _) (Keeps.bind getScheduler_board fun s => Keeps.ite (Keeps.pure _) ?_)
  refine Keeps.bind (onScheduler_board
    (onManager_board (LawfulBlockSpaceManager.getNumCachedTokens seq))) fun _ => Keeps.ite ?_ ?_
  · refine Keeps.bind ?_ fun _ => Keeps.pure _
    exact assertThat_keeps _
  · exact Keeps.pure _

theorem sumNewTokens_board (seqs : List Sequence) :
    Fixes board (sumNewTokens seqs : Method (Scheduling M) (ℤ × ℤ)) := by
  induction seqs with
  | nil => exact Keeps.pure _
  | cons seq rest ih =>
    exact Keeps.bind (newTokensOfSeq_board seq) fun _ => Keeps.bind ih fun _ => Keeps.pure _

theorem getNumNewUncachedAndCachedTokens_board (seqGroup : SequenceGroup) (status : SequenceStatus)
    (enableChunking : Bool) : Fixes board
      (getNumNewUncachedAndCachedTokens seqGroup status enableChunking :
        Method (Scheduling M) (ℤ × ℤ)) := by
  unfold getNumNewUncachedAndCachedTokens
  refine Keeps.bind (sumNewTokens_board _) fun _ => Keeps.ite ?_ (Keeps.pure _)
  refine Keeps.bind Keeps.get fun s => ?_
  exact Keeps.bind (getPromptLimit_board _ _) fun _ => Keeps.pure _

theorem releaseBudget_board (seqGroup : SequenceGroup) (numTokens : ℤ) :
    Fixes board (releaseBudget seqGroup numTokens : Method (Scheduling M) Unit) :=
  releaseBudget_fixes seqGroup numTokens

theorem withdraw_board (g : GroupRef) (numRunningTokens : ℤ) :
    Fixes board (withdraw g numRunningTokens : Method (Scheduling M) Unit) := withdraw_fixes g numRunningTokens

theorem fitsBudget_board (numNewTokensUncached numNewSeqs : ℤ) :
    Fixes board (fitsBudget numNewTokensUncached numNewSeqs : Method (Scheduling M) Bool) :=
  fitsBudget_fixes numNewTokensUncached numNewSeqs

theorem countScheduled_board (seqGroup : SequenceGroup) (numRunningTokens : ℤ)
    (enableChunking : Bool) : Fixes board
      (countScheduled seqGroup numRunningTokens enableChunking : Method (Scheduling M) Unit) :=
  countScheduled_fixes seqGroup numRunningTokens enableChunking

theorem fitsNow_board (seqGroup : SequenceGroup) (numNewTokensUncached numNewSeqs : ℤ) :
    Fixes board (fitsNow seqGroup numNewTokensUncached numNewSeqs : Method (Scheduling M) Bool) :=
  Keeps.bind (onScheduler_board (onManager_board (LawfulBlockSpaceManager.canAllocate _ _)))
    fun _ => Keeps.ite (onBudget_board _) (Keeps.pure _)

theorem delayHasPassed_board :
    Fixes Scheduler.board (delayHasPassed : Method (Scheduler M) Bool) := delayHasPassed_fixes neutral_board

theorem considerSwapped_board (seqGroup : SequenceGroup) (enableChunking : Bool) :
    Fixes board (considerSwapped seqGroup enableChunking : Method (Scheduling M) Decision) := by
  unfold considerSwapped
  refine Keeps.bind getScheduler_board fun s => Keeps.bind (onScheduler_board
    (onManager_board (LawfulBlockSpaceManager.canSwapIn _ _))) fun status => ?_
  cases status with
  | later => exact Keeps.pure _
  | never => exact Keeps.pure _
  | ok =>
    refine Keeps.bind (loraIsFull_board _) fun full => Keeps.ite (Keeps.pure _) ?_
    refine Keeps.bind (getNumNewUncachedAndCachedTokens_board _ _ _) fun tokens => ?_
    exact Keeps.bind (fitsBudget_board _ _) fun fits => Keeps.ite (Keeps.pure _) (Keeps.pure _)

theorem considerPrefill_board (seqGroup : SequenceGroup) (enableChunking : Bool) :
    Fixes board (considerPrefill seqGroup enableChunking : Method (Scheduling M) Decision) := by
  unfold considerPrefill
  refine Keeps.bind Keeps.get fun s => Keeps.bind ?_ fun _ => Keeps.ite (Keeps.pure _) ?_
  · exact assertThat_keeps _
  refine Keeps.bind (getNumNewUncachedAndCachedTokens_board _ _ _) fun tokens =>
    Keeps.bind ?_ fun _ => Keeps.bind (getPromptLimit_board _ _) fun limit => ?_
  · exact assertThat_keeps _
  refine Keeps.ite (Keeps.pure _) (Keeps.bind (onScheduler_board
    (onManager_board (LawfulBlockSpaceManager.canAllocate _ _))) fun status => ?_)
  cases status with
  | later => exact Keeps.pure _
  | never => exact Keeps.pure _
  | ok =>
    refine Keeps.bind (loraIsFull_board _) fun full => Keeps.ite (Keeps.pure _) ?_
    refine Keeps.bind Keeps.get fun t => Keeps.ite (Keeps.pure _) ?_
    exact Keeps.bind (fitsBudget_board _ _) fun fits => Keeps.ite (Keeps.pure _) (Keeps.pure _)

theorem prepare_board (g : GroupRef) (seqGroup : SequenceGroup) (enableChunking : Bool) :
    Fixes board (prepare g seqGroup enableChunking : Method (Scheduling M) Unit) :=
  prepare_fixes neutral_board LawfulBlockSpaceManager.unaffected g seqGroup enableChunking

theorem checkBudget_board : Fixes board (checkBudget : Method (Scheduling M) Unit) := checkBudget_fixes

end Scheduling

namespace Scheduler

variable {M : Type} [BlockSpaceManager M] [LawfulBlockSpaceManager M]

theorem accessSeq_board (now : Time) (seq : Sequence) :
    Fixes board (accessSeq now seq : Method (Scheduler M) _) :=
  accessSeq_fixes neutral_board LawfulBlockSpaceManager.unaffected now seq

theorem commonComputedBlockNums_board (seqs : List Sequence) :
    Fixes board (commonComputedBlockNums seqs : Method (Scheduler M) (List BlockId)) := by
  unfold commonComputedBlockNums
  refine Keeps.bind Keeps.get fun s => Keeps.ite ?_ (Keeps.pure _)
  exact onManager_board (LawfulBlockSpaceManager.getCommonComputedBlockIds _)

theorem groupMetadata_board (now : Time) (scheduled : ScheduledSequenceGroup) :
    Fixes board (groupMetadata now scheduled : Method (Scheduler M) SequenceGroupMetadata) := by
  unfold groupMetadata
  refine Keeps.bind Keeps.get fun s => Keeps.bind (Keeps.mapM (accessSeq_board now) _) fun _ => ?_
  refine Keeps.bind (commonComputedBlockNums_board _) fun _ => Keeps.bind ?_ fun _ => Keeps.pure _
  exact assertThat_keeps _

theorem markComputed_board (scheduled : ScheduledSequenceGroup) :
    Fixes board (markComputed scheduled : Method (Scheduler M) Unit) :=
  markComputed_fixes neutral_board LawfulBlockSpaceManager.unaffected scheduled

end Scheduler
end Vllm
