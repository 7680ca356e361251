import NestLayers.Layer.Controller
import NestLayers.Layer.Repository
import NestLayers.Layer.RequestContract
import NestLayers.Layer.ResponseContract
import NestLayers.Layer.Service
import NestLayers.Layer.Wiring

/-!
# Rendering the layers of a resource

The layers of a resource are rendered from its name and its definition alone.
-/

namespace NestLayers

/-- Renders a layer of a resource. A layer that no resource has is empty. -/
def Layer.render (conventions : Conventions) (n : ResourceName) (d : Definition) :
    Layer → Except IdentifierError LayerOutput
  | .module => return Layer.Wiring.moduleOutput n
  | .controller => Layer.Controller.output n d
  | .service => Layer.Service.output n d
  | .repository => Layer.Repository.output n d
  | .interfaces => return Layer.Wiring.interfacesOutput n
  | .requestContract => Layer.RequestContract.output conventions n d n.profile
  | .responseContract => return Layer.ResponseContract.output n d n.profile
  | layer => return { layer, resource := n.camel }

end NestLayers
