import DemandPaging.Event

/-!
The console the pager logs to. A record becomes one line of text, which shows as
several when its message has line breaks.
-/

namespace DemandPaging
namespace Console

def maxLevel : Level :=
  .trace

def isEnabled (_ : Level) : Bool :=
  true

/-- A record's text: the level, padded to five characters, and the message. -/
def record (level : Level) (message : String) : String :=
  let padded := level.name.pushn ' ' (5 - level.name.length)
  s!"[{padded}] {message}"

def lines (level : Level) (message : String) : List String :=
  (record level message).splitOn "\n"

/-- The lines that events show as, with the details of the clock only on demand. -/
def log (detailed : Bool) (events : List Event) : List String :=
  (events.filter fun event => detailed || !event.isDetail).flatMap
    fun event => lines event.level event.message

end Console
end DemandPaging
