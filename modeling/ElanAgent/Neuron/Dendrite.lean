import Mathlib.Algebra.Order.Ring.Rat
import ElanAgent.Library.Mqtt

/-!
# Messages of dendrites

A dendrite of `elan/neuron.py` publishes a value as JSON, and `None` as an empty message. The
value is what its subscribers get. The text that stands for a value in a message is left out.
-/

namespace ElanAgent.Neuron

/-- A value that JSON can hold. -/
inductive Json where
  | null
  | bool (b : Bool)
  | int (n : ℤ)
  | float (q : ℚ)
  | str (text : String)
  | list (items : List Json)
  | dict (items : List (String × Json))

namespace Json

/-- `bool(value)`. -/
def truthy : Json → Bool
  | null => false
  | bool b => b
  | int n => n != 0
  | float q => q != 0
  | str text => text != ""
  | list items => !items.isEmpty
  | dict items => !items.isEmpty

/-- `value.get(key)`, where the value is a dictionary. -/
def get (key : String) : Json → Option Json
  | dict items => (items.find? fun item => item.1 = key).map Prod.snd
  | _ => none

end Json

/-- A message that has been published. -/
structure Message where
  topic : String
  payload : Option Json

/-- `publish(topic, data)`. -/
def publish (topic : String) : Json → Message
  | .null => ⟨topic, none⟩
  | data => ⟨topic, some data⟩

/-- What the wrapper of `_subscribe_cb_wrapper` hands over to the callback. -/
def Message.data (message : Message) : Json := message.payload.getD .null

@[simp] theorem publish_topic (topic : String) (data : Json) :
    (publish topic data).topic = topic := by
  cases data <;> rfl

@[simp] theorem publish_data (topic : String) (data : Json) :
    (publish topic data).data = data := by
  cases data <;> rfl

/-! ## Configuration -/

/-- `CONF_TOPIC_PREFIX + topic`. -/
def confTopic (topic : String) : String := "conf/" ++ topic

/-- `CACHE_PREFIX + path`. -/
def cachePath (path : String) : String := "cache:" ++ path

theorem cachePath_inj {path path' : String} : cachePath path = cachePath path' ↔ path = path' :=
  String.append_right_inj "cache:"

end ElanAgent.Neuron
