import FyS.Library.Lines

/-!
# Topics

The topics of `StartupDispatcherCtx`, and which publications of the cluster a dispatcher
hears.  What a socket with subscriptions lets through is a parameter.
-/

namespace FyS.Dispatcher

open FyS.Library

/-! ## `StartupDispatcherCtx` -/

def parseToArray (s : String) : List String := (Lines.lines ',' s.toList).map String.ofList

/-- `initializeFromIni`, as far as it is about topics. -/
def subscriptionTopics (topicGroupsEntry topicsEntry : String) : List String :=
  let topicGroups := parseToArray topicGroupsEntry
  let topics := parseToArray topicsEntry
  if topicGroups.isEmpty then topics
  else topics.flatMap fun topic => topicGroups.map fun group => group ++ "_" ++ topic

/-- What `setupConnectionManager` looks at. -/
structure StartupDispatcherCtx where
  isClusterAware : Bool
  subTopics : List String

namespace StartupDispatcherCtx

/-- `setupConnectionManager`: the subscriptions that are set on the socket that is connected to
the cluster, unless it is closed. -/
def setupConnectionManager (ctx : StartupDispatcherCtx) : Option (List String) :=
  if ctx.isClusterAware then some ctx.subTopics else none

def Hears (ctx : StartupDispatcherCtx) (passes : List String → String → Prop)
    (firstFrame : String) : Prop :=
  ∃ topics, ctx.setupConnectionManager = some topics ∧ passes topics firstFrame

end StartupDispatcherCtx

/-! ## Topics that were written down -/

def readable (entries : List String) : List String :=
  if entries.getLast? = some "" then entries.dropLast else entries

theorem parseToArray_intercalate {entries : List String}
    (h : ∀ entry ∈ entries, ',' ∉ entry.toList) :
    parseToArray (",".intercalate entries) = readable entries := by
  have hlast : (entries.map String.toList).getLast? = some [] ↔ entries.getLast? = some "" := by
    rw [List.getLast?_map, Option.map_eq_some_iff]
    constructor
    · rintro ⟨entry, hentry, hnil⟩
      rw [hentry, String.toList_eq_nil_iff.mp hnil]
    · intro hempty
      exact ⟨"", hempty, rfl⟩
  have hlines : Lines.lines ',' ([','].intercalate (entries.map String.toList)) =
      (readable entries).map String.toList := by
    rw [Lines.lines_intercalate (by simpa using h)]
    simp only [hlast, readable]
    split_ifs
    · rw [List.map_dropLast]
    · rfl
  have hroundtrip : ((readable entries).map String.toList).map String.ofList =
      readable entries := by
    simp [Function.comp_def]
  have hcomma : ",".toList = [','] := rfl
  rw [parseToArray, String.toList_intercalate, hcomma, hlines, hroundtrip]

/-- A dispatcher of the cluster hears what begins with a topic, or with a group and a topic
where there are groups. -/
theorem topics_read_back {passes : List String → String → Prop}
    (hsubscribe : ∀ topics firstFrame, passes topics firstFrame ↔
      ∃ topic ∈ topics, topic.toList <+: firstFrame.toList)
    {topicGroups topics : List String} (hgroups : ∀ group ∈ topicGroups, ',' ∉ group.toList)
    (htopics : ∀ topic ∈ topics, ',' ∉ topic.toList) (isClusterAware : Bool) (firstFrame : String) :
    StartupDispatcherCtx.Hears
        ⟨isClusterAware, subscriptionTopics (",".intercalate topicGroups) (",".intercalate topics)⟩
        passes firstFrame ↔
      isClusterAware = true ∧
        (readable topicGroups = [] ∧
            (∃ topic ∈ readable topics, topic.toList <+: firstFrame.toList) ∨
          ∃ group ∈ readable topicGroups, ∃ topic ∈ readable topics,
            (group ++ "_" ++ topic).toList <+: firstFrame.toList) := by
  have hread : subscriptionTopics (",".intercalate topicGroups) (",".intercalate topics) =
      if (readable topicGroups).isEmpty then readable topics
      else (readable topics).flatMap fun topic =>
        (readable topicGroups).map fun group => group ++ "_" ++ topic := by
    rw [subscriptionTopics, parseToArray_intercalate hgroups, parseToArray_intercalate htopics]
  rw [hread]
  unfold StartupDispatcherCtx.Hears StartupDispatcherCtx.setupConnectionManager
  cases isClusterAware with
  | false => simp
  | true =>
      simp only [if_true, Option.some.injEq, exists_eq_left', hsubscribe, true_and]
      cases readable topicGroups with
      | nil => simp
      | cons group groups =>
          simp only [List.isEmpty_cons, Bool.false_eq_true, if_false, List.mem_flatMap,
            List.mem_map, reduceCtorEq, false_and, false_or]
          constructor
          · rintro ⟨_, ⟨topic, htopic, other, hother, rfl⟩, hprefix⟩
            exact ⟨other, hother, topic, htopic, hprefix⟩
          · rintro ⟨other, hother, topic, htopic, hprefix⟩
            exact ⟨_, ⟨topic, htopic, other, hother, rfl⟩, hprefix⟩

/-- The empty entry behind the last comma is no group. -/
theorem topics_read_back_arena :
    StartupDispatcherCtx.Hears
        ⟨true, subscriptionTopics (",".intercalate ["arena", "world", ""]) (",".intercalate ["chat"])⟩
        (fun topics firstFrame => ∃ topic ∈ topics, topic.toList <+: firstFrame.toList)
        "world_chat hello" ↔
      true = true ∧
        (readable ["arena", "world", ""] = [] ∧
            (∃ topic ∈ readable ["chat"], topic.toList <+: "world_chat hello".toList) ∨
          ∃ group ∈ readable ["arena", "world", ""], ∃ topic ∈ readable ["chat"],
            (group ++ "_" ++ topic).toList <+: "world_chat hello".toList) :=
  topics_read_back (fun _ _ => Iff.rfl) (by decide) (by decide) true "world_chat hello"

end FyS.Dispatcher
