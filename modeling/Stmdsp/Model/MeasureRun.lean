import Stmdsp.Model.CommandRun
import Stmdsp.Model.Conversion

/-! Runs of the command thread and the ADC's events, a pass of the loop and an event being
one step each. -/

namespace Stmdsp

inductive MeasureAct where
  | host (bytes : List UInt8)
  | comm
  /-- The DMA has filled a half of the buffer with `capture`. -/
  | adc (capture : Storage)
  | env

namespace MeasureAct

def isPass : MeasureAct → Bool
  | .comm => true
  | _ => false

def isEvent : MeasureAct → Bool
  | .adc _ => true
  | _ => false

end MeasureAct

/-- What everything else leaves alone: the converter, and the requests made so far. -/
structure Elsewhere (d d' : Device) : Prop extends Rely d d' where
  adc : d'.adc = d.adc
  reset : d'.mMailbox.reset = d.mMailbox.reset
  conv : ∃ new, d'.conv = d.conv ++ new ∧ ∀ msg status, ConvEvent.post msg status ∉ new

/-- One step. With an event, `abort` may write to the algorithm's memory. -/
def MeasureStep (d : Device) : MeasureAct → Device → Prop
  | .host bytes, d' => d' = { d with input := d.input ++ bytes }
  | .comm, d' => CommunicationManager.threadComm.run d = .ok () d'
  | .adc capture, d' => d.adc.driver.state = .ACTIVE ∧
      ∃ mem, d' = { (ADC.serveDmaInterrupt capture d).1 with mem := mem }
  | .env, d' => Elsewhere d d'

section Step

variable {d d' : Device}

theorem measureStep_host (d : Device) (bytes : List UInt8) :
    MeasureStep d (.host bytes) { d with input := d.input ++ bytes } :=
  rfl

theorem measureStep_pass (h : CommunicationManager.threadComm.run d = .ok () d') :
    MeasureStep d .comm d' :=
  h

theorem measureStep_adc (capture : Storage) (hact : d.adc.driver.state = .ACTIVE) :
    MeasureStep d (.adc capture) (ADC.serveDmaInterrupt capture d).1 :=
  ⟨hact, _, rfl⟩

end Step

abbrev MeasureRun (b : Board) := Run MeasureStep (powerUp b)

end Stmdsp
