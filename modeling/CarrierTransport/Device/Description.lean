import CarrierTransport.Configuration.Decode
import CarrierTransport.Configuration.Overlay
import CarrierTransport.Configuration.Source
import CarrierTransport.Device.Regions

/-!
# Descriptions of devices

A device is described by its temperature and the list of its layers from the left contact on. Layers
without doping may leave the densities out.
-/

namespace CarrierTransport

open CarrierTransport.Configuration (SourceError load overlaySource required optional fields?
  scalar? count? choice?)
open Physics (Material)
open Toml (Entries Value)

variable {α : Type} [BinaryScalar α]

/-! ### Decoding -/

def materialNames : List (String × Material) :=
  Material.all.map fun m => (m.name, m)

def Layer.ofValue? (value : Value) : Option (Layer α) := do
  let fields ← fields?
    ["material", "thickness", "divisions", "donor_density", "acceptor_density"] value
  let material ← required fields "material" (choice? materialNames)
  let thickness ← required fields "thickness" scalar?
  let divisions ← required fields "divisions" count?
  let donorDensity ← optional fields "donor_density" 0 scalar?
  let acceptorDensity ← optional fields "acceptor_density" 0 scalar?
  return { material, thickness, divisions, donorDensity, acceptorDensity }

def Device.ofEntries? (entries : Entries) : Option (Device α) := do
  let temperature ← required entries "temperature" scalar?
  match ← entries.lookup "layers" with
  | .array items =>
    let layers ← items.mapM Layer.ofValue?
    return { temperature, layers }
  | _ => none

/-! ### Reading -/

inductive DeviceError where
  | source (error : SourceError)
  | noLayers
deriving DecidableEq, Repr

def DeviceError.message : DeviceError → String
  | .source error => error.message
  | .noLayers => noLayersMessage

def Device.read (tree : FileTree) (path : Path) : Except DeviceError (Device α) := do
  let entries ← (load tree path).mapError .source
  match Device.ofEntries? (← (overlaySource [] entries).mapError .source) with
  | none => throw (.source .unfit)
  | some device => if device.layers.isEmpty then throw .noLayers else return device

end CarrierTransport
